import Lockstep.Proofs.Scenario.Steps

/-!
# Scenarios and their barrier

Every participant of a scenario makes two syncs at most and then leaves. `Fits` says where it can
stand when: one that is not blocked has made as many syncs as phases were completed, so the phase
tells its stages apart. `Conducts` says the same of the orchestrator, which keeps the first phase
with errors. Both hold after every run, on any medium and whenever time-outs expire
(`Tracked.step`, `tracked_start`).
-/

set_option autoImplicit false

namespace Lockstep.Scenario

open Medium Barrier History

/-- The participant is not blocked and has not ended. -/
def Stage.isGoing : Stage → Bool
  | .blocked _ _ | .ended => false
  | _ => true

/-- Whether a participant that is not blocked can stand here in phase `k`. -/
def Stage.Within (k : Nat) : Stage → Prop
  | .enter | .entering | .arrive true => k = 0
  | .send _ | .sending _ | .arrive false => k = 1
  | .verify _ => k = 2
  | .depart none verified => k = 2 ∧ verified = true
  | .depart (some _) verified => k = if verified then 2 else 1
  | .departing none | .finish none => k = 2
  | .departing (some _) | .finish (some _) | .dead => k ≤ 2
  | .blocked _ _ | .ended => False

/-- What the participant `p` has done, by where it stands. -/
inductive Fits (h : History ParticipantError) (p : Nat) : Stage → Prop
  | going {stage} : ¬ h.Exited p → h.syncs p = h.phase → stage.Within h.phase → Fits h p stage
  | blocked {first k} : ¬ h.Exited p → h.syncs p = k + 1 → (k = if first then 0 else 1) →
      Fits h p (.blocked first k)
  | ended : h.Exited p → h.syncs p ≤ 2 → Fits h p .ended

/-- The first of the lists with an error in it, if there is one, is that of the failure. -/
inductive FirstFailure (returns : List (List ParticipantError)) : Option Failure → Prop
  | none : (∀ errors ∈ returns, errors = []) → FirstFailure returns none
  | some {phase errors} : returns[phase.index]? = some errors → errors ≠ [] →
      (∀ k < phase.index, returns[k]? = some []) →
      FirstFailure returns (some ⟨phase, ⟨phase.index, errors⟩⟩)

/-- Where the orchestrator stands, the waits for the phases being called with these ends. -/
inductive Conducts (deadline : Phase → Except Fault (Option Instant))
    (h : History ParticipantError) : Conductor → Prop
  | conduct {left failure} : left = Phase.all.drop h.phase → h.phase ≤ 3 →
      FirstFailure h.returns failure → Conducts deadline h (.conduct left failure)
  | wait {phase limit left failure} : phase :: left = Phase.all.drop h.phase →
      deadline phase = .ok limit → FirstFailure h.returns failure →
      Conducts deadline h (.wait phase limit left failure)
  | join {failure} : h.phase = 3 → FirstFailure h.returns failure →
      Conducts deadline h (.join failure)
  | returned {failure} : h.phase = 3 → FirstFailure h.returns failure →
      Conducts deadline h (.returned (Run.resultOf failure))
  | stuck {phase : Phase} {limit timeout} : h.phase = phase.index →
      deadline phase = .ok (some limit) →
      Conducts deadline h (.returned (.error (.stuck phase timeout)))
  | panicked {phase : Phase} {fault} : h.phase = phase.index → deadline phase = .error fault →
      Conducts deadline h (.panicked fault)

/-- The wait for the phase needs no end, or has one that a clock can show. -/
def Waiting.Ends (waiting : Waiting) (c : Config) (phase : Phase) : Prop :=
  match waiting with
  | .plain => True
  | .timed clock => (clock.reading phase.index).toNanos + c.phaseTimeout.toNanos <
      (Word.signedMax + 1) * 1000000000

instance (waiting : Waiting) (c : Config) (phase : Phase) : Decidable (waiting.Ends c phase) :=
  match waiting with
  | .plain => .isTrue trivial
  | .timed _ => inferInstanceAs (Decidable (_ < _))

variable {S I : Type} {M : Medium S I} {r t : Run S} {a : Run.Label I} {n p k : Nat}
  {h es : History ParticipantError} {x x' : Participant} {stage stage' : Stage} {s : S}
  {c : Config} {waiting : Waiting} {deadline : Phase → Except Fault (Option Instant)}

/-! ## Waits -/

theorem Waiting.Ends.plain (c : Config) (phase : Phase) : Waiting.plain.Ends c phase := trivial

/-- Clocks do not go back, so the waits before one that has an end had one. -/
theorem Waiting.Ends.of_le {phase later : Phase} (hends : waiting.Ends c later)
    (hle : phase.index ≤ later.index) : waiting.Ends c phase := by
  cases waiting with
  | plain => trivial
  | timed clock => exact Nat.lt_of_le_of_lt (Nat.add_le_add_right (clock.mono _ _ hle) _) hends

theorem Waiting.ends_iff {phase : Phase} :
    waiting.Ends c phase ↔ ∃ limit, waiting.deadline c.phaseTimeout phase = .ok limit := by
  cases waiting with
  | plain => exact iff_of_true trivial ⟨none, rfl⟩
  | timed clock =>
    refine Instant.exists_add_iff.symm.trans ?_
    rw [Waiting.deadline]
    cases (clock.reading phase.index).add c.phaseTimeout with
    | ok limit => exact iff_of_true ⟨_, rfl⟩ ⟨_, rfl⟩
    | error => exact iff_of_false nofun nofun

theorem Waiting.exists_limit {timeout : Duration} {phase : Phase} {limit : Option Instant}
    (hne : waiting ≠ .plain) (hlimit : waiting.deadline timeout phase = .ok limit) :
    ∃ instant, limit = some instant := by
  cases waiting with
  | plain => exact absurd rfl hne
  | timed clock =>
    rw [Waiting.deadline] at hlimit
    cases hadd : (clock.reading phase.index).add timeout with
    | ok instant =>
      rw [hadd] at hlimit
      exact ⟨instant, (Except.ok.inj hlimit).symm⟩
    | error fault =>
      rw [hadd] at hlimit
      cases hlimit

theorem Waiting.not_ends_iff {phase : Phase} :
    ¬ waiting.Ends c phase ↔ waiting.deadline c.phaseTimeout phase = .error .deadline := by
  rw [Waiting.ends_iff]
  cases waiting with
  | plain => exact iff_of_false (fun h => h ⟨none, rfl⟩) nofun
  | timed clock =>
    rw [Waiting.deadline]
    cases hadd : (clock.reading phase.index).add c.phaseTimeout with
    | ok limit => exact iff_of_false (fun h => h ⟨_, rfl⟩) nofun
    | error fault =>
      rw [Instant.add_eq_error hadd]
      exact iff_of_true nofun rfl

/-- The only fault of a wait is that no clock can show its end. -/
theorem Waiting.of_deadline_error {phase : Phase} {fault : Fault}
    (hfault : waiting.deadline c.phaseTimeout phase = .error fault) :
    fault = .deadline ∧ ¬ waiting.Ends c phase := by
  have hnot : ¬ waiting.Ends c phase := by
    rw [Waiting.ends_iff]
    rintro ⟨limit, hlimit⟩
    cases hfault.symm.trans hlimit
  exact ⟨Except.error.inj (hfault.symm.trans (Waiting.not_ends_iff.1 hnot)), hnot⟩

/-! ## Participants -/

theorem Phase.index_lt (phase : Phase) : phase.index < 3 := by
  cases phase <;> decide

/-- There are three phases. -/
theorem Stage.Within.le_two (hw : stage.Within k) : k ≤ 2 := by
  cases stage with
  | arrive first => cases first <;> simp_all [Stage.Within]
  | depart error verified => cases error <;> cases verified <;> simp_all [Stage.Within]
  | departing error | finish error => cases error <;> simp_all [Stage.Within]
  | _ => simp_all [Stage.Within]

theorem Fits.exited_iff (hf : Fits h p stage) : h.Exited p ↔ stage = .ended := by
  cases hf with
  | going hx _ hw =>
    refine iff_of_false hx ?_
    rintro rfl
    exact hw
  | blocked hx => exact iff_of_false hx nofun
  | ended hx => exact iff_of_true hx rfl

theorem Fits.of_going (hf : Fits h p stage) (hgo : stage.isGoing = true) :
    ¬ h.Exited p ∧ h.syncs p = h.phase ∧ stage.Within h.phase := by
  cases hf with
  | going hx hs hw => exact ⟨hx, hs, hw⟩
  | blocked | ended => cases hgo

theorem Fits.of_blocked {first : Bool} (hf : Fits h p (.blocked first k)) :
    ¬ h.Exited p ∧ h.syncs p = k + 1 ∧ (k = if first then 0 else 1) := by
  cases hf with
  | going _ _ hw => exact hw.elim
  | blocked hx hs hk => exact ⟨hx, hs, hk⟩

theorem Fits.syncs_enter (hf : Fits h p .enter) : h.syncs p = 0 :=
  (hf.of_going rfl).2.1.trans (hf.of_going rfl).2.2

theorem Fits.syncs_entering (hf : Fits h p .entering) : h.syncs p = 0 :=
  (hf.of_going rfl).2.1.trans (hf.of_going rfl).2.2

theorem Fits.syncs_sending {i : Nat} (hf : Fits h p (.sending i)) : h.syncs p = 1 :=
  (hf.of_going rfl).2.1.trans (hf.of_going rfl).2.2

theorem Fits.syncs_verify {v : Verifier} (hf : Fits h p (.verify v)) : h.syncs p = 2 :=
  (hf.of_going rfl).2.1.trans (hf.of_going rfl).2.2

/-- What is neither an arrival nor an exit keeps a participant in its phase. -/
theorem Fits.move (hf : Fits h p stage) (hgo : stage.isGoing = true)
    (hw : ∀ k, stage.Within k → stage'.Within k) : Fits h p stage' := by
  obtain ⟨hx, hs, hk⟩ := hf.of_going hgo
  exact .going hx hs (hw _ hk)

theorem Stage.within_afterFailure (party : Party) (e : ParticipantError) :
    (Run.afterFailure party e).Within 1 := by
  cases party
  · exact Nat.le_succ 1
  · rfl

theorem Fits.ofVerdict {v : Verifier} (hf : Fits h p (.verify v))
    (verdict : Except ParticipantError Unit) : Fits h p (.ofVerdict verdict) := by
  refine hf.move rfl fun k (hk : k = 2) => ?_
  subst hk
  cases verdict
  · rfl
  · exact ⟨rfl, rfl⟩

theorem Fits.ask {c : Config} {q : Request} (hf : Fits h p x.stage) (ha : Asks c x q x') :
    Fits h p x'.stage := by
  cases ha with
  | connect _ hstage | register _ hstage | broadcast hstage =>
    rw [hstage] at hf
    exact hf.move rfl fun _ hw => hw
  | @depart error verified hstage =>
    rw [hstage] at hf
    refine hf.move rfl fun k hw => ?_
    cases error with
    | none => exact hw.1
    | some e =>
      change k = _ at hw
      show k ≤ 2
      split at hw <;> omega

theorem Fits.hear {reply : Reply} (hf : Fits h p x.stage) (hh : Hears x reply x') :
    Fits h p x'.stage := by
  cases hh with
  | entered hstage | sent hstage =>
    rw [hstage] at hf
    exact hf.move rfl fun _ hw => hw
  | refused hstage =>
    rw [hstage] at hf
    exact hf.move rfl fun k (hw : k = 0) => hw ▸ Nat.zero_le 2
  | notSent hstage =>
    rw [hstage] at hf
    exact hf.move rfl fun k (hw : k = 1) => hw ▸ Stage.within_afterFailure _ _
  | @departed error reply hstage =>
    rw [hstage] at hf
    refine hf.move rfl fun _ hw => ?_
    cases error <;> exact hw
  | died hawaits =>
    show Fits h p .dead
    cases hstage : x.stage with
    | entering | sending =>
      rw [hstage] at hf
      exact hf.move rfl fun k (hw : k = _) => show k ≤ 2 by omega
    | departing error =>
      rw [hstage] at hf
      refine hf.move rfl fun _ hw => ?_
      cases error
      · exact Nat.le_of_eq hw
      · exact hw
    | _ =>
      rw [hstage] at hawaits
      cases hawaits

/-- Others may go on, and complete the phase only if the participant has arrived. -/
theorem Fits.rest {b : Barrier ParticipantError} (hf : Fits h p stage) (hp' : Pace n (es ++ h) b)
    (hlt : p < n) (hes : ∀ e ∈ es, e.participant? ≠ some p) : Fits (es ++ h) p stage := by
  have hx : Exited p (es ++ h) ↔ h.Exited p := exited_append_of_ne hes
  have hsyncs : syncs p (es ++ h) = h.syncs p := syncs_append_of_ne hes
  cases hf with
  | going hnx hs hw =>
    have hphase : (es ++ h).phase = h.phase := by
      have := hp'.phase_le p hlt (mt hx.1 hnx)
      have := phase_append es h
      omega
    exact .going (mt hx.1 hnx) (hsyncs.trans (hs.trans hphase.symm)) (hphase ▸ hw)
  | blocked hnx hs hk => exact .blocked (mt hx.1 hnx) (hsyncs.trans hs) hk
  | ended hex hs => exact .ended (hx.2 hex) (hsyncs ▸ hs)

section
variable (hp : Pace n h r.barrier)
include hp

/-- A sync that is due is not refused. -/
theorem Fits.not_refused {first : Bool} {e : SyncError} (hf : Fits h p (.arrive first))
    (hs : r.barrier.sync p = some (.error e)) : False := by
  have hsyncs := (hf.of_going rfl).2.1
  have := (hp.of_refused hs).2.2
  omega

theorem Fits.work (hf : Fits h p x.stage) (hlt : p < n) (hw : Works r x x') :
    Fits h p x'.stage := by
  cases hw with
  | noRoom _ hstage =>
    rw [hstage] at hf
    exact hf.move rfl fun k (hw : k = 0) => hw ▸ Nat.zero_le 2
  | @resume first reached hstage hdue =>
    rw [hstage] at hf
    obtain ⟨hx, hs, hk⟩ := hf.of_blocked
    have hphase : h.phase = reached + 1 := by
      have := hp.phase_le p hlt hx
      rw [hp.phase] at hdue
      omega
    refine .going hx (hs.trans hphase.symm) ?_
    rw [hphase, hk]
    cases first
    · cases x.party
      · exact ⟨rfl, rfl⟩
      · rfl
    · rfl
  | conclude hstage =>
    rw [hstage] at hf
    exact hf.ofVerdict _
  | reject hstage =>
    rw [hstage] at hf
    exact hf.ofVerdict (.error _)
  | sentAll hstage | accept hstage =>
    rw [hstage] at hf
    exact hf.move rfl fun _ hw => hw

theorem Fits.turn {b : Barrier ParticipantError} (hf : Fits h p x.stage)
    (hp' : Pace n (es ++ h) b) (hlt : p < n) (hturn : Run.Turn M r p x a es x' s) :
    Fits (es ++ h) p x'.stage := by
  cases hturn with
  | ask ha => exact hf.ask ha
  | hear _ hh => exact hf.hear hh
  | work hw => exact hf.work hp hlt hw
  | @sync first b hstage hs =>
    rw [hstage] at hf
    obtain ⟨hx, hsyncs, hk⟩ := hf.of_going rfl
    refine .blocked (mt exited_synced.1 hx) ?_ ?_
    · simp [hsyncs, hp.phase]
    · rw [hp.phase]
      cases first <;> exact hk
  | refused hstage hs =>
    rw [hstage] at hf
    exact (hf.not_refused hp hs).elim
  | @exit error b hstage hs =>
    rw [hstage] at hf
    obtain ⟨hx, hsyncs, hk⟩ := hf.of_going rfl
    refine .ended ⟨error, List.mem_cons_self⟩ ?_
    rw [List.singleton_append, syncs_exited, hsyncs]
    cases error
    · exact Nat.le_of_eq hk
    · exact hk
  | miss hstage =>
    rw [hstage] at hf
    exact hf.ofVerdict (.error .receiveTimeout)
  | handed => exact hf
  | rest hes => exact hf.rest hp' hlt hes

end

/-! ## The orchestrator -/

theorem FirstFailure.snoc {returns : List (List ParticipantError)} {failure : Option Failure}
    {phase : Phase} (hf : FirstFailure returns failure) (hlength : returns.length = phase.index)
    (errors : List ParticipantError) :
    FirstFailure (returns ++ [errors])
      (Run.recordFailure failure phase phase.index errors) := by
  cases hf with
  | none hall =>
    cases errors with
    | nil =>
      refine .none ?_
      intro errors hm
      rcases List.mem_append.1 hm with hm | hm
      · exact hall errors hm
      · exact List.mem_singleton.1 hm
    | cons e errors =>
      refine .some ?_ (List.cons_ne_nil e errors) ?_
      · rw [← hlength]
        simp
      · intro k hk
        rw [List.getElem?_append_left (hlength ▸ hk), List.getElem?_eq_getElem (hlength ▸ hk),
          hall _ (List.getElem_mem _)]
  | @some phase' errors' hget hne hbefore =>
    have hlt := (List.getElem?_eq_some_iff.1 hget).1
    refine .some ?_ hne ?_
    · rw [List.getElem?_append_left hlt, hget]
    · intro k hk
      rw [List.getElem?_append_left (Nat.lt_trans hk hlt), hbefore k hk]

theorem Conducts.congr {h' : History ParticipantError} {conductor : Conductor}
    (hc : Conducts deadline h conductor) (hphase : h'.phase = h.phase)
    (hreturns : h'.returns = h.returns) : Conducts deadline h' conductor := by
  cases hc with
  | conduct hleft hle hf => exact .conduct (hphase ▸ hleft) (hphase ▸ hle) (hreturns ▸ hf)
  | wait hleft hlimit hf => exact .wait (hphase ▸ hleft) hlimit (hreturns ▸ hf)
  | join hk hf => exact .join (hphase.trans hk) (hreturns ▸ hf)
  | returned hk hf => exact .returned (hphase.trans hk) (hreturns ▸ hf)
  | stuck hk hlimit => exact .stuck (hphase.trans hk) hlimit
  | panicked hk hfault => exact .panicked (hphase.trans hk) hfault

/-- The phases that are left begin with the current one. -/
theorem index_of_drop {phase : Phase} {left : List Phase}
    (hleft : phase :: left = Phase.all.drop k) :
    k = phase.index ∧ k < 3 ∧ left = Phase.all.drop (k + 1) := by
  match k with
  | 0 | 1 | 2 =>
    cases hleft
    exact ⟨rfl, by decide, rfl⟩
  | k + 3 => simp [Phase.all] at hleft

namespace Run

/-- A state of a scenario with `n` participants, and the history of its barrier. -/
structure Tracked (n : Nat) (h : History ParticipantError) (r : Run S) : Prop where
  recorded : Recorded n h r.barrier
  size : r.participants.length = n
  fits : ∀ p x, r.participants[p]? = some x → Fits h p x.stage
  conducts : Conducts r.deadline h r.conductor
  /-- The waits for the completed phases had an end. -/
  waited : ∀ phase : Phase, phase.index < h.phase → r.waiting.Ends r.config phase

section
variable (ht : Tracked n h r)
include ht

theorem Tracked.lt (hx : r.participants[p]? = some x) : p < n :=
  ht.size ▸ (List.getElem?_eq_some_iff.1 hx).1

theorem Tracked.exists_participant (hlt : p < n) : ∃ x, r.participants[p]? = some x :=
  ⟨_, List.getElem?_eq_getElem (ht.size.symm ▸ hlt)⟩

theorem Tracked.getElem?_returns (hk : k < h.phase) : h.returns[k]? = some (h.errors k) := by
  rw [ht.recorded.account.returns, List.getElem?_map, List.getElem?_range hk]
  rfl

theorem Tracked.deadline_of_wait {phase : Phase} {limit : Option Instant} {left : List Phase}
    {failure : Option Failure} (hconductor : r.conductor = .wait phase limit left failure) :
    r.deadline phase = .ok limit := by
  have hc := ht.conducts
  rw [hconductor] at hc
  cases hc with
  | wait _ hlimit => exact hlimit

/-- Where a scenario has succeeded, all phases are over and none had errors. -/
theorem Tracked.errors_of_ok (hok : r.result? = some (.ok ())) :
    h.phase = 3 ∧ ∀ k < 3, h.errors k = [] := by
  have hc := ht.conducts
  cases hconductor : r.conductor with
  | conduct | wait | join | panicked =>
    rw [result?, hconductor] at hok
    cases hok
  | returned result =>
    rw [result?, hconductor, Option.some.injEq] at hok
    subst hok
    rw [hconductor] at hc
    generalize hresult : Except.ok () = result at hc
    cases hc with
    | stuck => cases hresult
    | returned hphase hfailure =>
      cases hfailure with
      | some => cases hresult
      | none hall =>
        refine ⟨hphase, fun k hk => hall _ ?_⟩
        exact List.mem_of_getElem? (ht.getElem?_returns (hphase ▸ hk))

/-- Where all phases are over, everyone has left. -/
theorem Tracked.ended_of_over (hphase : h.phase = 3) (hx : r.participants[p]? = some x) :
    x.stage = .ended := by
  have hf := ht.fits p x hx
  have hle (hnx : ¬ h.Exited p) := ht.recorded.pace.phase_le p (ht.lt hx) hnx
  generalize x.stage = stage at hf
  cases hf with
  | going hnx hs hw =>
    have := hw.le_two
    omega
  | @blocked first k hnx hs hk =>
    have := hle hnx
    cases first <;> simp at hk <;> omega
  | ended => rfl

/-- Where a scenario has succeeded, everyone has left, without an error. -/
theorem Tracked.exited_of_ok (hok : r.result? = some (.ok ())) (hx : r.participants[p]? = some x) :
    x.stage = .ended ∧ .exited p none ∈ h := by
  obtain ⟨hphase, herrors⟩ := ht.errors_of_ok hok
  have hstage := ht.ended_of_over hphase hx
  have hf := ht.fits p x hx
  rw [hstage] at hf
  refine ⟨hstage, ?_⟩
  cases hf with
  | going _ _ hw => exact hw.elim
  | ended hexited hs =>
    obtain ⟨error, hm⟩ := hexited
    cases error with
    | none => exact hm
    | some e =>
      have hreport := (ht.recorded.account.mem_reports _ p e).2 ⟨hm, rfl⟩
      have hnil := List.map_eq_nil_iff.1 (herrors (h.syncs p) (by omega))
      rw [hnil] at hreport
      cases hreport

theorem Tracked.conducts_step (he : Effect M r a es t) :
    Conducts r.deadline (es ++ h) t.conductor := by
  have hc := ht.conducts
  cases he with
  | ask | hear | work | refused | miss => exact hc
  | pass =>
    rw [handOver_conductor]
    exact hc
  | sync | exit => exact hc.congr (by simp) (by simp)
  | call hconductor hlimit =>
    rw [hconductor] at hc
    cases hc with
    | conduct hleft hle hf => exact .wait hleft hlimit hf
  | overflow hconductor hfault =>
    rw [hconductor] at hc
    cases hc with
    | conduct hleft => exact .panicked (index_of_drop hleft).1 hfault
  | complete hconductor =>
    rw [hconductor] at hc
    cases hc with
    | wait hleft hlimit hf =>
      obtain ⟨hphase, hlt, hleft⟩ := index_of_drop hleft
      refine .conduct hleft hlt ?_
      rw [ht.recorded.pace.phase, hphase]
      exact hf.snoc (h.length_returns.trans hphase) _
  | phasesOver hconductor =>
    rw [hconductor] at hc
    cases hc with
    | conduct hleft hle hf =>
      have hlength : 3 ≤ h.phase := List.drop_eq_nil_iff.1 hleft.symm
      exact .join (Nat.le_antisymm hle hlength) hf
  | joined hconductor =>
    rw [hconductor] at hc
    cases hc with
    | join hk hf => exact .returned hk hf
  | giveUp hconductor =>
    rw [hconductor] at hc
    cases hc with
    | wait hleft hlimit => exact .stuck (index_of_drop hleft).1 hlimit

/-- A phase is completed only by a wait that has an end. -/
theorem Tracked.waited_step (he : Effect M r a es t) {phase : Phase}
    (hlt : phase.index < History.phase (es ++ h)) : r.waiting.Ends r.config phase := by
  cases he with
  | ask | hear | work | refused | miss | pass => exact ht.waited phase hlt
  | call | overflow | phasesOver | joined | giveUp => exact ht.waited phase hlt
  | sync | exit => exact ht.waited phase (by simpa using hlt)
  | @complete current limit left failure hconductor =>
    by_cases hbefore : phase.index < h.phase
    · exact ht.waited phase hbefore
    have hc := ht.conducts
    rw [hconductor] at hc
    cases hc with
    | wait hleft hlimit =>
      have hphase := (index_of_drop hleft).1
      have heq : phase.index = current.index := by
        rw [List.singleton_append, History.phase] at hlt
        omega
      obtain rfl : phase = current := by cases phase <;> cases current <;> first | rfl | cases heq
      exact Waiting.ends_iff.2 ⟨limit, hlimit⟩

theorem Tracked.step (he : Effect M r a es t) : Tracked n (es ++ h) t where
  recorded := he.recorded ht.recorded
  size := he.length_participants.trans ht.size
  fits p x' hx' := by
    obtain ⟨x, hx, hturn⟩ := he.exists_turn hx'
    exact (ht.fits p x hx).turn ht.recorded.pace (he.recorded ht.recorded).pace (ht.lt hx) hturn
  conducts := he.deadline_eq ▸ ht.conducts_step he
  waited phase hlt := by
    rw [he.waiting_eq, he.config_eq]
    exact ht.waited_step he hlt

end

/-! ## The start -/

/-- The state in which a scenario starts. -/
def begin (c : Config) (medium : S) (waiting : Waiting) : Run S where
  config := c
  medium
  waiting
  barrier := (Barrier.fresh (c.clients + c.servers)).issueAll.2
  participants := parties c

theorem servers_ne_zero (hvalid : c.validate = .ok ()) : c.servers ≠ 0 :=
  (Config.validate_eq_ok_iff.1 hvalid).1

theorem messages_ne_zero (hvalid : c.validate = .ok ()) : c.messages ≠ 0 :=
  (Config.validate_eq_ok_iff.1 hvalid).2.1

/-- With a valid configuration a run faults where the participants cannot be counted or have no room, or
the first wait has no end, and begins otherwise. -/
theorem start_eq (hvalid : c.validate = .ok ()) (medium : S) (waiting : Waiting) :
    start c medium waiting =
      if c.clients + c.servers < Word.bound then
        if Word.fitsBlock (c.clients + c.servers) slotSize then
          if waiting.Ends c .startup then .ok (.running (begin c medium waiting))
          else .error .deadline
        else .error .capacity
      else .error .sum := by
  have hne : c.clients + c.servers ≠ 0 := by
    have := servers_ne_zero hvalid
    omega
  unfold start Config.participants
  rw [hvalid]
  by_cases hsum : c.clients + c.servers < Word.bound
  · have hparticipants : Word.add c.clients c.servers = .ok (c.clients + c.servers) :=
      Word.add_eq_ok_iff.2 ⟨hsum, rfl⟩
    rw [hparticipants, if_pos hsum]
    by_cases hfits : Word.fitsBlock (c.clients + c.servers) slotSize = true
    · simp only [Barrier.create, if_neg hne, if_pos hfits, bind, Except.bind, pure, Except.pure]
      by_cases hends : waiting.Ends c .startup
      · obtain ⟨limit, hlimit⟩ := Waiting.ends_iff.1 hends
        rw [if_pos hends, hlimit]
        rfl
      · rw [if_neg hends, Waiting.not_ends_iff.1 hends]
    · simp only [Barrier.create, if_neg hne, if_neg hfits, bind, Except.bind]
  · have hparticipants : Word.add c.clients c.servers = .error .sum :=
      Word.check_eq_error_iff.2 ⟨Nat.le_of_not_lt hsum, rfl⟩
    rw [hparticipants, if_neg hsum]
    rfl

theorem lt_bound_of_fitsBlock (hsize : Word.fitsBlock (c.clients + c.servers) slotSize = true) :
    c.clients + c.servers < Word.bound := by
  have hle : (c.clients + c.servers) * 16 ≤ 0x7fffffffffffffff := of_decide_eq_true hsize
  show c.clients + c.servers < 0x10000000000000000
  omega

theorem start_of_fitsBlock (hvalid : c.validate = .ok ())
    (hsize : Word.fitsBlock (c.clients + c.servers) slotSize = true) (medium : S)
    (waiting : Waiting) : start c medium waiting =
      if waiting.Ends c .startup then .ok (.running (begin c medium waiting))
      else .error .deadline := by
  rw [start_eq hvalid, if_pos (lt_bound_of_fitsBlock hsize), if_pos hsize]

/-- A scenario starts if its configuration is valid, its barrier can be made and its first wait has an
end. -/
theorem start_eq_begin (hvalid : c.validate = .ok ())
    (hsize : Word.fitsBlock (c.clients + c.servers) slotSize = true)
    (hends : waiting.Ends c .startup) (medium : S) :
    start c medium waiting = .ok (.running (begin c medium waiting)) := by
  rw [start_of_fitsBlock hvalid hsize, if_pos hends]

theorem length_parties (c : Config) : (parties c).length = c.clients + c.servers := by
  simp [parties]

theorem stage_of_parties (hx : (parties c)[p]? = some x) : x.stage = .enter := by
  have hm := List.mem_of_getElem? hx
  simp only [parties, List.mem_append, List.mem_map] at hm
  rcases hm with ⟨i, -, rfl⟩ | ⟨j, -, rfl⟩ <;> rfl

theorem tracked_begin (c : Config) (medium : S) (waiting : Waiting) :
    Tracked (c.clients + c.servers) [] (begin c medium waiting) where
  recorded := .issue _ .fresh
  size := length_parties c
  fits p x hx := by
    rw [stage_of_parties hx]
    exact .going exited_nil rfl rfl
  conducts := .conduct rfl (by decide) (.none (List.forall_mem_nil _))
  waited _ hlt := absurd hlt (Nat.not_lt_zero _)

end Run

end Lockstep.Scenario
