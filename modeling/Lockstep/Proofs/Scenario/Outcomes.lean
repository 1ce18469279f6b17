import Lockstep.Proofs.Scenario.Fates

/-!
# How a scenario ends

On a scripted medium the outcome of a scenario does not depend on the order of the steps: `Verdict`
tells it by the waits that have an end, which are given by the clock, and by the scripts of the
participants, which are given by the configuration and the behaviour (`scripts`). A scenario is stuck in
the first phase in which somebody is killed, if there is one, and fails with the first phase that has
errors otherwise, unless it panics before that in a wait that has no end.

`Staged` carries the proof. It holds after every run; only that a phase is given up with those
missing who are killed in it needs that the time-out is timely (`Staged.missing_eq_droppers`).
-/

set_option autoImplicit false

namespace Lockstep.Scenario

open Medium Barrier History
open Barrier.Threads (droppers expectedErrors mem_droppers_iff)

/-- The scripts of the participants, the clients before the servers. -/
def scripts (c : Config) (b : Behaviour) : List (Script ParticipantError) :=
  (Run.parties c).zipIdx.map fun (x, p) => scriptOf c b p x.party

/-- How a scenario of participants with these scripts ends whose waits for these phases have an end.
Errors may come in any order. -/
inductive Verdict (ends : Phase → Prop) (scripts : List (Script ParticipantError)) :
    Except Fault (Except ScenarioError Unit) → Prop
  | stuck {phase : Phase} : ends phase → (∀ k < phase.index, droppers scripts k = []) →
      droppers scripts phase.index ≠ [] →
      Verdict ends scripts
        (.ok (.error (.stuck phase ⟨phase.index, droppers scripts phase.index⟩)))
  | failed {phase : Phase} {errors} : (∀ phase, ends phase) → (∀ k ≤ 2, droppers scripts k = []) →
      (∀ k < phase.index, expectedErrors scripts k = []) →
      expectedErrors scripts phase.index ≠ [] →
      errors.Perm (expectedErrors scripts phase.index) →
      Verdict ends scripts (.ok (.error (.phaseFailed phase ⟨phase.index, errors⟩)))
  | ok : (∀ phase, ends phase) → (∀ k ≤ 2, droppers scripts k = []) →
      (∀ k ≤ 2, expectedErrors scripts k = []) → Verdict ends scripts (.ok (.ok ()))
  /-- Whatever errors there have been before are lost. -/
  | panicked {phase : Phase} : ¬ ends phase → (∀ k < phase.index, droppers scripts k = []) →
      Verdict ends scripts (.error .deadline)

/-- Who is reported missing. -/
def Told (scripts : List (Script ParticipantError)) (conductor : Conductor) : Prop :=
  ∀ phase timeout, conductor = .returned (.error (.stuck phase timeout)) →
    droppers scripts phase.index ≠ [] ∧ timeout = ⟨phase.index, droppers scripts phase.index⟩

/-- A state of a scenario on a scripted medium. -/
structure Staged (c : Config) (b : Behaviour) (waiting : Waiting) (h : History ParticipantError)
    (r : Run Scripted) : Prop where
  messages : c.messages ≠ 0
  config : r.config = c
  waiting : r.waiting = waiting
  behaviour : r.medium.behaviour = b
  tracked : Run.Tracked (c.clients + c.servers) h r
  party : ∀ p x, r.participants[p]? = some x → (scripts c b)[p]? = some (scriptOf c b p x.party)
  onScript : ∀ p x, r.participants[p]? = some x → OnScript c b h r.medium p x x.stage
  /-- Only participants are handed anything. -/
  callers : ∀ p, c.clients + c.servers ≤ p → r.medium.rest? p = none

variable {c : Config} {b : Behaviour} {waiting : Waiting} {clock : Clock}
  {h es : History ParticipantError} {r t : Run Scripted} {a : Run.Label Nat}
  {as : List (Run.Label Nat)} {p k : Nat} {x x' : Participant} {party : Party}
  {script : Script ParticipantError} {s : Scripted}

/-! ## What the scripts say -/

theorem length_scripts (c : Config) (b : Behaviour) :
    (scripts c b).length = c.clients + c.servers := by
  rw [scripts, List.length_map, List.length_zipIdx, Run.length_parties]

theorem getElem?_scripts (hx : (Run.parties c)[p]? = some x) :
    (scripts c b)[p]? = some (scriptOf c b p x.party) := by
  simp [scripts, List.getElem?_zipIdx, hx]

/-- A script goes on beyond the phases in which nothing goes wrong. -/
theorem le_rounds (hk : k ≤ 2)
    (hwell : ∀ phase : Phase, phase.index < k → mishap? c b p party phase = none) :
    k ≤ (scriptOf c b p party).rounds := by
  rw [scriptOf]
  cases hfind : Phase.all.findSome? _ with
  | none => exact hk
  | some script =>
    obtain ⟨phase, -, hscript⟩ := List.exists_of_findSome?_eq_some hfind
    obtain ⟨m, hm, rfl⟩ := Option.map_eq_some_iff.1 hscript
    by_contra hlt
    rw [hwell phase (Nat.lt_of_not_le hlt)] at hm
    cases hm

theorem one_le_rounds (hwell : mishap? c b p party .startup = none) :
    1 ≤ (scriptOf c b p party).rounds := by
  refine le_rounds (by decide) fun phase hlt => ?_
  cases phase with
  | startup => exact hwell
  | broadcasting | verification => exact absurd hlt (by decide)

theorem Through.le_rounds {first : Bool} (ht : Through c b s p x first) :
    (if first then 1 else 2) ≤ (scriptOf c b p x.party).rounds := by
  cases first with
  | true => exact one_le_rounds ht.entered.well
  | false =>
    refine Scenario.le_rounds (by decide) fun phase hlt => ?_
    cases phase with
    | startup => exact ht.entered.well
    | broadcasting => exact (ht.sent rfl).2
    | verification => exact absurd hlt (by decide)

/-- A participant that has not left has made the syncs of its script at most, and one that has left
has come to its end. -/
theorem OnScript.syncs_le_or_exited {stage : Stage} (hon : OnScript c b h s p x stage)
    (hf : Fits h p stage) :
    (¬ h.Exited p ∧ h.syncs p ≤ (scriptOf c b p x.party).rounds) ∨
      ∃ error, scriptOf c b p x.party = ⟨h.syncs p, .exit error⟩ ∧
        ∀ e, .exited p e ∈ h ↔ e = error := by
  cases hon with
  | enter | entering =>
    obtain ⟨hx, hsyncs, hzero⟩ := hf.of_going rfl
    exact .inl ⟨hx, by rw [hsyncs, hzero]; exact Nat.zero_le _⟩
  | @arrive first _ ht =>
    obtain ⟨hx, hsyncs, hk⟩ := hf.of_going rfl
    have hle := ht.le_rounds
    refine .inl ⟨hx, hsyncs ▸ Nat.le_trans ?_ hle⟩
    cases first with
    | true =>
      rw [show h.phase = 0 from hk]
      exact Nat.zero_le 1
    | false =>
      rw [show h.phase = 1 from hk]
      exact Nat.le_succ 1
  | @blocked first k _ ht =>
    obtain ⟨hx, hsyncs, hk⟩ := hf.of_blocked
    have hle := ht.le_rounds
    refine .inl ⟨hx, ?_⟩
    cases first <;> simp only [hsyncs, hk] <;> exact hle
  | send _ he | sending _ he =>
    obtain ⟨hx, hsyncs, hk⟩ := hf.of_going rfl
    exact .inl ⟨hx, by rw [hsyncs, hk]; exact one_le_rounds he.well⟩
  | verify _ _ _ hscript =>
    refine .inl ⟨(hf.of_going rfl).1, ?_⟩
    rw [hscript, hf.syncs_verify]
  | depart _ hscript | departing _ hscript | finish hscript | dead hscript =>
    exact .inl ⟨(hf.of_going rfl).1, by rw [hscript]⟩
  | ended hscript hexited => exact .inr ⟨_, hscript, hexited⟩

/-! ## Every run -/

/-- What a participant that verifies has not got, it does not get any more. -/
theorem empty_of_turn {es : History ParticipantError} {s' : Scripted}
    (hturn : Run.Turn scripted r p x a es x' s') (hrest : r.medium.rest? p = some [])
    (hempty : x.inbox.items.toList = []) :
    s'.rest? p = some [] ∧ x'.inbox.items.toList = [] := by
  cases hturn with
  | ask ha =>
    refine ⟨?_, ?_⟩
    · show (r.medium.ask p _).rest? p = some []
      rw [Scripted.rest?_ask, hrest]
      rfl
    · cases ha with
      | register _ _ hinbox =>
        rw [eq_of_serverInbox hinbox]
        rfl
      | connect | broadcast | depart => exact hempty
  | hear hr hh =>
    obtain ⟨pending, -, -, -, rfl⟩ := Scripted.reply?_eq_some_iff.1 hr
    refine ⟨hrest, ?_⟩
    cases hh <;> exact hempty
  | work hw =>
    refine ⟨hrest, ?_⟩
    cases hw with
    | noRoom | resume | sentAll | conclude => exact hempty
    | accept _ _ hm | reject _ _ hm =>
      rw [Inbox.toList_eq_of_receive? hm] at hempty
      cases hempty
  | sync | refused | exit | miss => exact ⟨hrest, hempty⟩
  | handed hs =>
    obtain ⟨m, rest, hsome, hhandover, rfl⟩ := Scripted.step_eq_some_iff.1 hs
    cases hhandover
    rw [hrest] at hsome
    cases hsome
  | rest _ hforeign => exact ⟨(Scripted.of_foreign hforeign).2.trans hrest, hempty⟩

section
variable (hst : Staged c b waiting h r)
include hst

theorem Staged.step (he : Run.Effect scripted r a es t) : Staged c b waiting (es ++ h) t where
  messages := hst.messages
  config := he.config_eq.trans hst.config
  waiting := he.waiting_eq.trans hst.waiting
  behaviour := (Scripted.behaviour_of_changes he.changes).trans hst.behaviour
  tracked := hst.tracked.step he
  party p x' hx' := by
    obtain ⟨x, hx, hturn⟩ := he.exists_turn hx'
    rw [hturn.party_eq]
    exact hst.party p x hx
  onScript p x' hx' := by
    obtain ⟨x, hx, hturn⟩ := he.exists_turn hx'
    exact (hst.onScript p x hx).turn (hst.tracked.fits p x hx) hst.tracked.recorded.pace hst.config
      hst.messages hst.behaviour rfl hturn
  callers p hp := by
    have hlt := hst.tracked.size
    exact Scripted.rest?_of_changes (fun q hq => hst.callers q (hlt ▸ hq)) he.changes (hlt.symm ▸ hp)

theorem Staged.exists_participant (hscript : (scripts c b)[p]? = some script) :
    ∃ x, r.participants[p]? = some x ∧ script = scriptOf c b p x.party := by
  obtain ⟨hlt, -⟩ := List.getElem?_eq_some_iff.1 hscript
  obtain ⟨x, hx⟩ := hst.tracked.exists_participant (length_scripts c b ▸ hlt)
  exact ⟨x, hx, Option.some.inj (hscript.symm.trans (hst.party p x hx))⟩

theorem Staged.droppers_eq_nil (hk : k < h.phase) : droppers (scripts c b) k = [] := by
  rw [List.eq_nil_iff_forall_not_mem]
  intro p hm
  obtain ⟨x, hx, hscript⟩ := hst.exists_participant (mem_droppers_iff.1 hm)
  rcases (hst.onScript p x hx).syncs_le_or_exited (hst.tracked.fits p x hx) with
    ⟨hnot, hle⟩ | ⟨error, hexit, -⟩
  · have hphase := hst.tracked.recorded.pace.phase_le p (hst.tracked.lt hx) hnot
    rw [← hscript] at hle
    exact absurd hle (by simp only; omega)
  · rw [← hscript] at hexit
    cases hexit

/-- The errors of a phase that was completed are those of the scripts. -/
theorem Staged.errors_perm (hk : k < h.phase) :
    (h.errors k).Perm (expectedErrors (scripts c b) k) := by
  refine Threads.errors_perm_of_reports (length_scripts c b ▸ hst.tracked.recorded) ?_
  intro p script hscript e
  obtain ⟨x, hx, rfl⟩ := hst.exists_participant hscript
  rcases (hst.onScript p x hx).syncs_le_or_exited (hst.tracked.fits p x hx) with
    ⟨hnot, hle⟩ | ⟨error, hexit, hexited⟩
  · have hphase := hst.tracked.recorded.pace.phase_le p (hst.tracked.lt hx) hnot
    exact iff_of_false (fun hm => hnot ⟨_, hm.1⟩) (Threads.report?_ne_of_lt (by omega) e)
  · rw [hexited, hexit, Threads.report?_eq_some_iff]
    simp [eq_comm]

theorem Staged.measured : Run.Measured scripted (Scripted.size (c.clients + c.servers))
    (∑ q ∈ Finset.range (c.clients + c.servers), (b.handed q).length) r where
  ask p x q x' _ _ := hst.behaviour ▸ Scripted.size_ask_le
  reply p reply s hr := (Scripted.size_reply hr).le
  step i s handover hs := by
    refine Scripted.size_step_lt hs (Nat.lt_of_not_le fun hle => ?_)
    obtain ⟨m, rest, hrest, -, -⟩ := Scripted.step_eq_some_iff.1 hs
    rw [hst.callers i hle] at hrest
    cases hrest

/-- Where all is handed over, every reply is there. -/
theorem Staged.answers (hnone : ∀ q, r.medium.step q = none) (hx : r.participants[p]? = some x)
    (hawaits : x.stage.awaitsReply = true) :
    ∃ reply s, r.medium.reply? p = some (reply, s) := by
  have hreply {pending : Pending} (hpending : r.medium.pending? p = some pending) :
      ∃ reply s, r.medium.reply? p = some (reply, s) :=
    ⟨_, _, Scripted.reply?_eq_some_iff.2
      ⟨pending, hpending, fun _ => Scripted.isHanded_of_step (hnone p), rfl, rfl⟩⟩
  have hon := hst.onScript p x hx
  generalize x.stage = stage at hon hawaits
  cases hon with
  | entering hsome | sending hsome | departing hsome => exact hreply hsome
  | _ => cases hawaits

/-- A receive times out only where nothing more is handed over. -/
theorem Staged.timely_of_expireReceive
    (hne : Run.step scripted r (.expireReceive p) ≠ none) :
    Run.Timely scripted r (.expireReceive p) := by
  obtain ⟨t, hs⟩ := Option.ne_none_iff_exists'.1 hne
  obtain ⟨es, he⟩ := Run.effect_of_step hs
  cases he with
  | @miss p x v hx hstage hwanted hempty =>
    have hon := hst.onScript p x hx
    rw [hstage] at hon
    cases hon with
    | verify _ _ hrest =>
      intro u hreach
      let P (u : Run Scripted) := (u.medium.rest? p = some []) ∧
        ∃ x, u.participants[p]? = some x ∧ x.inbox.items.toList = []
      have hkept : P u := by
        refine Run.reaches_induction hreach ⟨hrest, x, hx, hempty⟩ ?_
        rintro u a es v ⟨hrest, x, hx, hempty⟩ he
        obtain ⟨x', hx', hturn⟩ := he.turn hx
        obtain ⟨hrest, hempty⟩ := empty_of_turn hturn hrest hempty
        exact ⟨hrest, x', hx', hempty⟩
      obtain ⟨-, x', hx', hempty⟩ := hkept
      intro y hy
      rw [hx', Option.some.injEq] at hy
      rw [← hy, hempty]

end

/-- A scripted medium answers, and hands over what it has and no more. -/
theorem steady (c : Config) (b : Behaviour) (clock : Clock) : Run.Steady scripted
    (Scripted.size (c.clients + c.servers))
    (∑ q ∈ Finset.range (c.clients + c.servers), (b.handed q).length)
    (c.clients + c.servers) (fun r => ∃ h, Staged c b (.timed clock) h r) where
  tracked := fun r ⟨h, hst⟩ => ⟨h, hst.tracked⟩
  limited := fun r ⟨h, hst⟩ => hst.waiting ▸ nofun
  step := fun r a t ⟨h, hst⟩ _ hs => by
    obtain ⟨es, he⟩ := Run.effect_of_step hs
    exact ⟨_, hst.step he⟩
  measured := fun r ⟨h, hst⟩ => hst.measured
  answers := fun r ⟨h, hst⟩ hnone p x hx hawaits => hst.answers hnone hx hawaits
  patient := fun r p ⟨h, hst⟩ _ hne => hst.timely_of_expireReceive hne

/-! ## The result -/

section
variable (hst : Staged c b (.timed clock) h r)
include hst

/-- Where a phase is given up, those are missing who are killed in it. -/
theorem Staged.missing_eq_droppers (htimely : Run.Timely scripted r .expirePhase) :
    r.barrier.missing = droppers (scripts c b) h.phase := by
  have hp := hst.tracked.recorded.pace
  refine (pairwise_missing _).eq_of_mem_iff (pairwise_filter_zipIdx _ _) fun p => ?_
  rw [mem_droppers_iff]
  refine ⟨fun hm => ?_, fun hscript => ?_⟩
  · obtain ⟨t, x, ⟨h', ht⟩, hphase, hx, hstage⟩ :=
      (steady c b clock).exists_dead ⟨h, hst⟩ fun t hr => htimely t hr p hm
    have hf := ht.tracked.fits p x hx
    have hon := ht.onScript p x hx
    rw [hstage] at hf hon
    cases hon with
    | dead hscript =>
      rw [ht.party p x hx, hscript, (hf.of_going rfl).2.1, ← ht.tracked.recorded.pace.phase, hphase,
        hp.phase]
  · obtain ⟨x, hx, hscript'⟩ := hst.exists_participant hscript
    have hlt := hst.tracked.lt hx
    rcases (hst.onScript p x hx).syncs_le_or_exited (hst.tracked.fits p x hx) with
      ⟨hnot, hle⟩ | ⟨error, hexit, -⟩
    · rw [← hscript'] at hle
      simp only at hle
      refine hp.mem_missing_iff.2 ⟨hlt, ?_⟩
      rw [hp.arrived_iff, not_or]
      exact ⟨hnot, by omega⟩
    · rw [← hscript'] at hexit
      cases (Script.mk.inj hexit).2

theorem Staged.expectedErrors_eq_nil (hk : k < h.phase) (hnil : h.returns[k]? = some []) :
    expectedErrors (scripts c b) k = [] := by
  rw [hst.tracked.getElem?_returns hk, Option.some.injEq] at hnil
  have hperm := hst.errors_perm hk
  rw [hnil] at hperm
  exact hperm.nil_eq.symm

theorem Staged.deadline_eq (phase : Phase) :
    r.deadline phase = (Waiting.timed clock).deadline c.phaseTimeout phase := by
  rw [Run.deadline, hst.config, hst.waiting]

/-- Where all phases are over, all waits had an end. -/
theorem Staged.ends (hphase : h.phase = 3) (phase : Phase) : (Waiting.timed clock).Ends c phase := by
  have hends := hst.tracked.waited phase (hphase ▸ phase.index_lt)
  rwa [hst.config, hst.waiting] at hends

theorem Staged.verdict (htold : Told (scripts c b) r.conductor)
    {outcome : Except Fault (Except ScenarioError Unit)} (hended : r.outcome? = some outcome) :
    Verdict ((Waiting.timed clock).Ends c) (scripts c b) outcome := by
  have hc := hst.tracked.conducts
  cases hconductor : r.conductor with
  | conduct | wait | join =>
    rw [Run.outcome?, hconductor] at hended
    cases hended
  | panicked fault =>
    rw [Run.outcome?, hconductor, Option.some.injEq] at hended
    subst hended
    rw [hconductor] at hc
    cases hc with
    | @panicked phase _ hphase hfault =>
      rw [hst.deadline_eq] at hfault
      obtain ⟨rfl, hnot⟩ := Waiting.of_deadline_error hfault
      exact .panicked hnot fun k hk => hst.droppers_eq_nil (hphase ▸ hk)
  | returned result =>
    rw [Run.outcome?, hconductor, Option.some.injEq] at hended
    subst hended
    rw [hconductor] at hc
    cases hc with
    | @stuck phase limit timeout hphase hlimit =>
      obtain ⟨hne, htimeout⟩ := htold phase timeout hconductor
      rw [hst.deadline_eq] at hlimit
      rw [htimeout]
      exact .stuck (Waiting.ends_iff.2 ⟨_, hlimit⟩)
        (fun k hk => hst.droppers_eq_nil (hphase ▸ hk)) hne
    | returned hphase hfailure =>
      have hnobody (k : Nat) (hk : k ≤ 2) : droppers (scripts c b) k = [] :=
        hst.droppers_eq_nil (by omega)
      cases hfailure with
      | none hall =>
        refine .ok (hst.ends hphase) hnobody fun k hk => hst.expectedErrors_eq_nil (by omega) ?_
        have hreturns := hst.tracked.getElem?_returns (k := k) (by omega)
        rw [hreturns, hall _ (List.mem_of_getElem? hreturns)]
      | @some phase errors hget hne hbefore =>
        have hlt : phase.index < h.phase := by
          rw [← h.length_returns]
          exact (List.getElem?_eq_some_iff.1 hget).1
        have herrors := Option.some.inj (hget.symm.trans (hst.tracked.getElem?_returns hlt))
        have hperm := hst.errors_perm hlt
        rw [← herrors] at hperm
        refine .failed (hst.ends hphase) hnobody (fun k hk => ?_) ?_ hperm
        · exact hst.expectedErrors_eq_nil (Nat.lt_trans hk hlt) (hbefore k hk)
        · exact fun hnil => hne (hnil ▸ hperm).eq_nil

end

/-! ## Runs -/

theorem staged_begin (hvalid : c.validate = .ok ()) :
    Staged c b waiting [] (Run.begin c { behaviour := b } waiting) where
  messages := Run.messages_ne_zero hvalid
  config := rfl
  waiting := rfl
  behaviour := rfl
  tracked := Run.tracked_begin c _ _
  party p x hx := getElem?_scripts hx
  onScript p x hx := by
    rw [Run.stage_of_parties hx]
    exact .enter rfl rfl
  callers p _ := rfl

theorem timelyRun_settle (hvalid : c.validate = .ok ()) (b : Behaviour) (clock : Clock) (fuel : Nat) :
    let begin := Run.begin c { behaviour := b } (.timed clock)
    ∃ as, Run.TimelyRun scripted begin as (begin.settle scripted fuel) :=
  (steady c b clock).timelyRun_settle (fun _ _ hq => Scripted.step_eq_none_of_not_mem hq)
    ⟨[], staged_begin hvalid⟩ fuel

/-- A clock that shows its last second after the first `n` readings. -/
def lateClock (n : Nat) : Clock where
  reading k := ⟨if k < n then 0 else Word.signedMax, 0, by split <;> simp, Duration.zero.nanos_lt⟩
  mono i j h := by
    simp only [Instant.toNanos, Nat.add_zero]
    refine Nat.mul_le_mul_right _ ?_
    by_cases hj : j < n
    · rw [if_pos (Nat.lt_of_le_of_lt h hj)]
      exact Nat.zero_le _
    · rw [if_neg hj]
      split
      · exact Nat.zero_le _
      · exact Nat.le_refl _

end Lockstep.Scenario
