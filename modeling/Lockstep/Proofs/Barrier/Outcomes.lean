import Mathlib.Data.List.Sort
import Lockstep.Proofs.Barrier.Scripts

/-!
# The outcome does not depend on the schedule

Threads that follow scripts on a barrier, with an orchestrator that waits up to a given number of
times: `Outcome` says what each wait returns in terms of the scripts alone, and
`outcome_of_every_schedule` that this is so on every timely run.

The `Ledger` of the orchestrator carries the proof: what it has returned fits the history of the
barrier, whose errors are those of the scripts (`Staged.errors_perm`), and a wait gives up only
where some script ends without an exit, for else the phase could still be completed
(`Staged.droppers_ne_nil`). Whoever drops the handle there is missing (`Staged.reported`), and nobody
else if the wait is unhurried (`Staged.missing_eq_droppers`).
-/

set_option autoImplicit false

namespace Lockstep.Barrier

variable {ε : Type}

/-- The error that a participant with this script reports with phase `k`. -/
def Script.report? (script : Script ε) (k : Nat) : Option ε :=
  match script.ending with
  | .exit error => if script.rounds = k then error else none
  | .syncExit error => if script.rounds + 1 = k then error else none
  | .drop => none

/-- The participant drops its handle after `k` syncs. -/
def Script.dropsAfter (script : Script ε) (k : Nat) : Bool :=
  match script.ending with
  | .drop => script.rounds == k
  | _ => false

/-- The last phase in which the participant arrives, unless it drops its handle there. -/
def Script.last (script : Script ε) : Nat :=
  match script.ending with
  | .syncExit _ => script.rounds + 1
  | _ => script.rounds

namespace Threads

open History

/-- The errors of phase `k`, in the order of the participants. -/
def expectedErrors (scripts : List (Script ε)) (k : Nat) : List ε :=
  scripts.filterMap (·.report? k)

/-- Who drops the handle after `k` syncs, in ascending order. -/
def droppers (scripts : List (Script ε)) (k : Nat) : List Nat :=
  (scripts.zipIdx.filter (·.1.dropsAfter k)).map (·.2)

/-- Whom the wait for phase `k` reports if it gives up: everyone who drops the handle there, and perhaps
others who have not left before. -/
structure Reported (scripts : List (Script ε)) (k : Nat) (missing : List Nat) : Prop where
  ascending : missing.Pairwise (· < ·)
  droppers : ∀ i ∈ droppers scripts k, i ∈ missing
  rest : ∀ i ∈ missing, ∃ script, scripts[i]? = some script ∧ k ≤ script.last

/-- What the wait for phase `k` returns. -/
inductive Outcome (scripts : List (Script ε)) (k : Nat) : Except WaitTimeout (List ε) → Prop
  /-- Nobody has dropped the handle so far. The errors may come in any order. -/
  | ok {errors} : (∀ j ≤ k, droppers scripts j = []) → errors.Perm (expectedErrors scripts k) →
      Outcome scripts k (.ok errors)
  | timedOut {missing} : (∀ j < k, droppers scripts j = []) → droppers scripts k ≠ [] →
      Reported scripts k missing → Outcome scripts k (.error ⟨k, missing⟩)

/-- What the orchestrator has returned, and whether it goes on. A wait for phase `k` that gives up
reports a list that is `Given k`. -/
inductive Ledger (scripts : List (Script ε)) (Given : Nat → List Nat → Prop) (waits : Nat)
    (h : History ε) (s : Threads ε) : Prop
  | going : s.orchestrator.left + h.phase = waits →
      s.orchestrator.results.toList = h.returns.map .ok → Ledger scripts Given waits h s
  | ended {missing} : s.orchestrator.left = 0 → h.phase < waits → droppers scripts h.phase ≠ [] →
      Given h.phase missing →
      s.orchestrator.results.toList = h.returns.map .ok ++ [.error ⟨h.phase, missing⟩] →
      Ledger scripts Given waits h s

/-- A state that a timely run of the scripts leads to. -/
structure Staged (scripts : List (Script ε)) (h : History ε) (s : Threads ε) : Prop where
  tracked : Tracked scripts.length h s
  wakeful : Wakeful s
  sound : ∀ i script th, scripts[i]? = some script → s.threads[i]? = some th →
    Sound s h i script th
  timed : ∀ k, s.orchestrator.timed k = true

variable {n i k : Nat} {h es : History ε} {s t : Threads ε} {a : Label} {as : List Label}
  {th : Thread ε} {script : Script ε} {scripts : List (Script ε)} {waits : Nat}
  {Given : Nat → List Nat → Prop}

/-! ## What the scripts say -/

theorem report?_eq_some_iff {e : ε} : script.report? k = some e ↔
    script.ending = .exit (some e) ∧ script.rounds = k ∨
      script.ending = .syncExit (some e) ∧ script.rounds + 1 = k := by
  cases hending : script.ending <;> simp [Script.report?, hending, and_comm]

theorem mem_droppers_iff : i ∈ droppers scripts k ↔ scripts[i]? = some ⟨k, .drop⟩ := by
  have hdrops (script : Script ε) : script.dropsAfter k = true ↔ script = ⟨k, .drop⟩ := by
    obtain ⟨rounds, ending⟩ := script
    cases ending <;> simp [Script.dropsAfter]
  simp only [droppers, List.mem_map, List.mem_filter, Prod.exists, List.mem_zipIdx_iff_getElem?,
    hdrops]
  refine ⟨?_, ?_⟩
  · rintro ⟨script, j, ⟨hj, rfl⟩, rfl⟩
    exact hj
  · intro hi
    exact ⟨_, i, ⟨hi, rfl⟩, rfl⟩

/-- The errors of phase `k` with the participants that report them. -/
def expectedReports (scripts : List (Script ε)) (k : Nat) : List (Nat × ε) :=
  scripts.zipIdx.filterMap fun (script, i) => (script.report? k).map (i, ·)

theorem mem_expectedReports_iff {e : ε} : (i, e) ∈ expectedReports scripts k ↔
    ∃ script, scripts[i]? = some script ∧ script.report? k = some e := by
  simp only [expectedReports, List.mem_filterMap, Prod.exists, List.mem_zipIdx_iff_getElem?,
    Option.map_eq_some_iff, Prod.mk.injEq]
  refine ⟨?_, ?_⟩
  · rintro ⟨script, j, hj, e', he, rfl, rfl⟩
    exact ⟨script, hj, he⟩
  · rintro ⟨script, hi, he⟩
    exact ⟨script, i, hi, e, he, rfl, rfl⟩

theorem nodup_expectedReports (scripts : List (Script ε)) (k : Nat) :
    (expectedReports scripts k).Nodup := by
  have hall : scripts.zipIdx.Pairwise fun x y => x.2 ≠ y.2 := by
    rw [← List.pairwise_map, List.zipIdx_map_snd]
    exact List.nodup_range'
  refine List.Pairwise.filterMap _ ?_ hall
  intro x y hne u hu v hv
  obtain ⟨e, -, rfl⟩ := Option.map_eq_some_iff.1 hu
  obtain ⟨e', -, rfl⟩ := Option.map_eq_some_iff.1 hv
  exact fun heq => hne (congrArg Prod.fst heq)

theorem map_expectedReports (scripts : List (Script ε)) (k : Nat) :
    (expectedReports scripts k).map (·.2) = expectedErrors scripts k := by
  have hfst : scripts = scripts.zipIdx.map (·.1) := (List.zipIdx_map_fst 0 scripts).symm
  rw [expectedErrors, hfst, List.filterMap_map, ← hfst, expectedReports, List.map_filterMap]
  congr 1
  funext x
  cases hx : x.1.report? k <;> simp [hx]

/-- A phase has the errors of the scripts where these tell who has left with which error. -/
theorem errors_perm_of_reports {b : Barrier ε} (hr : Recorded scripts.length h b)
    (htold : ∀ i script, scripts[i]? = some script → ∀ e,
      .exited i (some e) ∈ h ∧ h.syncs i = k ↔ script.report? k = some e) :
    (h.errors k).Perm (expectedErrors scripts k) := by
  have ha := hr.account
  have hmem (x : Nat × ε) : x ∈ h.reports k ↔ x ∈ expectedReports scripts k := by
    obtain ⟨i, e⟩ := x
    rw [ha.mem_reports, mem_expectedReports_iff]
    refine ⟨?_, ?_⟩
    · intro hm
      have hscript := List.getElem?_eq_getElem (hr.pace.lt_of_exited ⟨_, hm.1⟩)
      exact ⟨_, hscript, (htold i _ hscript e).1 hm⟩
    · rintro ⟨script, hscript, hreport⟩
      exact (htold i script hscript e).2 hreport
  have hperm : (h.reports k).Perm (expectedReports scripts k) :=
    (List.perm_ext_iff_of_nodup (.of_map _ (ha.nodup k)) (nodup_expectedReports _ _)).2 hmem
  rw [History.errors, ← map_expectedReports]
  exact hperm.map _

/-- No script that ends without an exit has ended before the current phase, and one that ends with
it has not arrived. -/
theorem Sound.of_drop {rounds : Nat} (hs : Sound s h i ⟨rounds, .drop⟩ th) (hp : Pace n h s.barrier)
    (hf : Fits h i th) (hi : i < n) :
    h.phase ≤ rounds ∧ (h.phase = rounds → ¬ h.Arrived i) := by
  have hle (hx : ¬ h.Exited i) := hp.phase_le i hi hx
  rw [hp.arrived_iff]
  rcases hs with hon | ⟨-, hfailed⟩
  · cases hon with
    | idle _ hx hsyncs hle => exact ⟨hle, fun _ => by simp [hx, hsyncs]⟩
    | @blocked k hr hlt =>
      obtain ⟨hx, hsyncs⟩ := hf.blocked k hr
      have := hle hx
      simp only at hlt
      refine ⟨by omega, ?_⟩
      intro hphase
      rw [not_or]
      exact ⟨hx, by omega⟩
    | synced _ _ hending => cases hending
    | exited _ hending => rcases hending with ⟨hending, -⟩ | ⟨hending, -⟩ <;> cases hending
  · have := hfailed.lt
    simp only at this
    exact ⟨by omega, fun hphase => by omega⟩

/-- Who has not arrived has not come to the end of its script before. -/
theorem Sound.le_last (hs : Sound s h i script th) (hp : Pace n h s.barrier) (hf : Fits h i th)
    (hi : i < n) (hna : ¬ h.Arrived i) : h.phase ≤ script.last := by
  have hlast : script.rounds ≤ script.last := by
    cases hending : script.ending <;> simp [Script.last, hending]
  rw [hp.arrived_iff, not_or] at hna
  have hle := hp.phase_le i hi hna.1
  rcases hs with hon | ⟨-, hfailed⟩
  · cases hon with
    | idle _ _ _ hrounds => omega
    | @blocked k hr hlt =>
      have hsyncs := (hf.blocked k hr).2
      omega
    | @synced error _ _ hending hsyncs =>
      simp only [Script.last, hending]
      omega
    | exited hevent => exact absurd ⟨_, (hevent _).2 rfl⟩ hna.1
  · exact absurd hfailed.arrived hna.2

/-- A blocking sync of a phase that was completed has succeeded, unless its thread has still to find
that out. -/
theorem Sound.result (hs : Sound s h i script th) (hk : k < h.phase) (hr : k < script.rounds) :
    th.results.toList[k]? = some (.ok ()) ∨
      th.results.toList[k]? = none ∧ ∃ j ≤ k, th.reached? = some j := by
  have hreplicate {m : Nat} (hm : k < m)
      (hres : th.results.toList = List.replicate m (.ok ())) :
      th.results.toList[k]? = some (.ok ()) := by
    rw [hres, List.getElem?_replicate, if_pos hm]
  rcases hs with hon | ⟨-, hfailed⟩
  · cases hon with
    | idle _ _ _ _ _ hres => exact .inl (hreplicate hk hres)
    | @blocked j hreached _ _ hres =>
      by_cases hj : k < j
      · exact .inl (hreplicate hj hres)
      · refine .inr ⟨?_, j, Nat.le_of_not_lt hj, hreached⟩
        rw [hres, List.getElem?_replicate, if_neg hj]
    | synced _ _ _ _ _ hres => exact .inl (hreplicate (by omega) hres)
    | exited _ hending hres =>
      refine .inl (hreplicate ?_ hres)
      rcases hending with ⟨-, hsyncs⟩ | ⟨-, hsyncs⟩ <;> omega
  · exact .inl (hfailed.results k hk)

theorem report?_ne_of_lt (hlt : k < script.rounds) (e : ε) : script.report? k ≠ some e := by
  rw [ne_eq, report?_eq_some_iff]
  omega

/-- Who has exited after fewer syncs than phases were completed is told by the script. -/
theorem Sound.exited_iff (hs : Sound s h i script th) (hp : Pace n h s.barrier) (hf : Fits h i th)
    (hi : i < n) (hk : k < h.phase) (e : ε) :
    .exited i (some e) ∈ h ∧ h.syncs i = k ↔ script.report? k = some e := by
  have hnot (hx : ¬ h.Exited i) : ¬ (.exited i (some e) ∈ h ∧ h.syncs i = k) :=
    fun hm => hx ⟨_, hm.1⟩
  have hle (hx : ¬ h.Exited i) := hp.phase_le i hi hx
  rcases hs with hon | ⟨-, hfailed⟩
  · cases hon with
    | idle _ hx _ hle => exact iff_of_false (hnot hx) (report?_ne_of_lt (by omega) e)
    | @blocked k' hr hlt =>
      obtain ⟨hx, hsyncs⟩ := hf.blocked k' hr
      have := hle hx
      exact iff_of_false (hnot hx) (report?_ne_of_lt (by omega) e)
    | synced _ hx hending hsyncs =>
      have := hle hx
      refine iff_of_false (hnot hx) ?_
      rw [report?_eq_some_iff, hending]
      rintro (⟨hending, -⟩ | ⟨-, hk⟩)
      · cases hending
      · omega
    | exited hevent hending =>
      rw [hevent, report?_eq_some_iff]
      rcases hending with ⟨hending, hsyncs⟩ | ⟨hending, hsyncs⟩ <;>
        simp [hending, hsyncs, eq_comm]
  · have h1 := hfailed.lt
    have h2 := hfailed.arrived
    exact iff_of_false (fun hm => by omega) (report?_ne_of_lt (by omega) e)

/-! ## What the waits return -/

section
variable (hst : Staged scripts h s)
include hst

theorem Staged.step (htimely : Timely s a) (he : Effect s a es t) : Staged scripts (es ++ h) t where
  tracked := hst.tracked.step he
  wakeful := hst.tracked.wakeful_step hst.wakeful he
  sound i script th' hscript hth' := by
    obtain ⟨th, hth, hturn⟩ := he.exists_turn hth'
    exact (hst.sound i script th hscript hth).step hst.tracked htimely he hth hturn
  timed := he.timed_eq ▸ hst.timed

theorem Staged.exists_thread (hscript : scripts[i]? = some script) :
    ∃ th, s.threads[i]? = some th ∧ i < scripts.length ∧ Fits h i th ∧ Sound s h i script th := by
  have hi := (List.getElem?_eq_some_iff.1 hscript).1
  obtain ⟨th, hth⟩ := hst.tracked.exists_thread hi
  exact ⟨th, hth, hi, hst.tracked.fits i th hth, hst.sound i script th hscript hth⟩

theorem Staged.droppers_eq_nil (hk : k < h.phase) : droppers scripts k = [] := by
  rw [List.eq_nil_iff_forall_not_mem]
  intro i hm
  rw [mem_droppers_iff] at hm
  obtain ⟨th, hth, hi, hf, hs⟩ := hst.exists_thread hm
  have hle := (hs.of_drop hst.tracked.recorded.pace hf hi).1
  omega

/-- The errors of a phase that was completed are those of the scripts. -/
theorem Staged.errors_perm (hk : k < h.phase) : (h.errors k).Perm (expectedErrors scripts k) := by
  refine errors_perm_of_reports hst.tracked.recorded ?_
  intro i script hscript e
  obtain ⟨th, -, hi, hf, hs⟩ := hst.exists_thread hscript
  exact hs.exited_iff hst.tracked.recorded.pace hf hi hk e

/-- Who is missing can go on, unless it drops its handle there. -/
theorem Staged.exists_act (hl : s.locked = false) (hscript : scripts[i]? = some script)
    (hm : i ∈ s.barrier.missing) (hnot : script ≠ ⟨h.phase, .drop⟩) :
    ∃ es t, Effect s (.act i) es t ∧ t.locked = false := by
  have hp := hst.tracked.recorded.pace
  have hna := (hp.mem_missing_iff.1 hm).2
  rw [hp.arrived_iff, not_or] at hna
  obtain ⟨th, hth, -, hf, hs⟩ := hst.exists_thread hscript
  cases hb : th.blocked with
  | none =>
    refine hst.tracked.exists_act hl hth hb fun htodo => ?_
    -- who has nothing left to do has arrived, unless it dropped its handle
    rcases hs with hon | ⟨-, hfailed⟩
    · cases hon with
      | idle _ _ _ hle hfollows =>
        rw [htodo] at hfollows
        obtain ⟨hrounds, hending⟩ := Script.mk.inj hfollows.nil
        obtain ⟨rounds, ending⟩ := script
        simp only at hrounds hending hle
        exact hnot (by rw [hending, show rounds = h.phase by omega])
      | blocked hr =>
        rw [Thread.reached?, hb] at hr
        cases hr
      | synced _ _ _ _ htodo' =>
        rw [htodo] at htodo'
        cases htodo'
      | exited hevent => exact hna.1 ⟨_, (hevent _).2 rfl⟩
    · exact hna.2 hfailed.arrived
  | some b =>
    have hblocked : s.blocked? i = some b := (blocked?_of_getElem? hth).trans hb
    obtain ⟨-, hsyncs⟩ := hf.blocked _ (Thread.reached?_of_blocked hb)
    -- the phase that it waits for is over, so that it is awake and can come back
    have hdue : b.reached < s.barrier.phase := by
      have h1 := hp.syncs_le i
      rw [hp.phase]
      omega
    have hstage : b.stage = .awake := by
      by_contra hne
      exact hst.wakeful.undue (.participant i) b.stage (by rw [stage?, hblocked]; rfl) hne
        ⟨b, hblocked, hdue⟩
    exact ⟨_, _, .resume hth hb hl hdue (.inl ⟨rfl, hstage⟩), hl⟩

/-- A state can follow in which `P` holds, if until then somebody is missing who can go on. -/
theorem Staged.exists_reached {P : Threads ε → Prop} (hl : s.locked = false)
    (hgo : ∀ h' u, Staged scripts h' u → h'.phase = h.phase → ¬ P u → ∃ i script,
      scripts[i]? = some script ∧ i ∈ u.barrier.missing ∧ script ≠ ⟨h.phase, .drop⟩) :
    ∃ t, (hastyMachine ε).Reaches s t ∧ P t := by
  induction hk : s.work using Nat.strongRecOn generalizing h s with
  | ind m ih =>
    by_cases hP : P s
    · exact ⟨s, .refl s, hP⟩
    obtain ⟨i, script, hscript, hm, hnot⟩ := hgo h s hst rfl hP
    obtain ⟨es, t, he, hl'⟩ := hst.exists_act hl hscript hm hnot
    have hst' := hst.step (a := .act i) trivial he
    have hphase : (es ++ h).phase = h.phase := by
      rw [← hst.tracked.recorded.pace.phase, ← hst'.tracked.recorded.pace.phase]
      cases he.conducted with
      | rest _ hphase => exact hphase
      | complete _ hc =>
        rw [hst.tracked.recorded.pace.missing_eq_nil_iff.2 hc] at hm
        cases hm
    obtain ⟨u, hr, hu⟩ := ih t.work (hk ▸ he.work_lt) hst' hl' (by rwa [hphase]) rfl
    exact ⟨u, he.reaches.trans hr, hu⟩

/-- A wait gives up only where somebody drops the handle: a phase that all others have to arrive in can
be completed. -/
theorem Staged.droppers_ne_nil (hl : s.locked = false) (hc : s.barrier.isComplete = false)
    (htimely : Timely s .expireOrchestrator) : droppers scripts h.phase ≠ [] := by
  intro hnil
  obtain ⟨t, hr, ht⟩ : ∃ t, (hastyMachine ε).Reaches s t ∧ t.barrier.isComplete = true := by
    refine hst.exists_reached hl fun h' u hu _ hincomplete => ?_
    have hp := hu.tracked.recorded.pace
    obtain ⟨i, hm⟩ := List.exists_mem_of_ne_nil _ (mt hp.missing_eq_nil_iff.1 hincomplete)
    have hscript := List.getElem?_eq_getElem (hp.mem_missing_iff.1 hm).1
    refine ⟨i, _, hscript, hm, fun heq => ?_⟩
    rw [heq, ← mem_droppers_iff, hnil] at hscript
    cases hscript
  rw [htimely hc t hr] at ht
  cases ht

theorem Staged.missing_of_drop (hm : i ∈ droppers scripts h.phase) : i ∈ s.barrier.missing := by
  obtain ⟨th, -, hi, hf, hs⟩ := hst.exists_thread (mem_droppers_iff.1 hm)
  have hp := hst.tracked.recorded.pace
  exact hp.mem_missing_iff.2 ⟨hi, (hs.of_drop hp hf hi).2 rfl⟩

theorem Staged.reported : Reported scripts h.phase s.barrier.missing where
  ascending := pairwise_missing _
  droppers _ hm := hst.missing_of_drop hm
  rest i hm := by
    have hp := hst.tracked.recorded.pace
    obtain ⟨hi, hna⟩ := hp.mem_missing_iff.1 hm
    have hscript := List.getElem?_eq_getElem hi
    obtain ⟨th, -, -, hf, hs⟩ := hst.exists_thread hscript
    exact ⟨_, hscript, hs.le_last hp hf hi hna⟩

/-- An unhurried wait gives up only where those are missing who drop the handle, and nobody else. -/
theorem Staged.missing_eq_droppers (hl : s.locked = false)
    (hunhurried : Unhurried s .expireOrchestrator) :
    s.barrier.missing = droppers scripts h.phase := by
  refine (pairwise_missing _).eq_of_mem_iff (pairwise_filter_zipIdx _ _) fun i => ?_
  refine ⟨fun hm => ?_, hst.missing_of_drop⟩
  rw [mem_droppers_iff]
  have hscript := List.getElem?_eq_getElem (hst.tracked.recorded.pace.mem_missing_iff.1 hm).1
  by_contra hnot
  obtain ⟨t, hr, harrived⟩ : ∃ t, (hastyMachine ε).Reaches s t ∧ i ∉ t.barrier.missing := by
    refine hst.exists_reached hl fun h' u _ _ hmissing => ?_
    exact ⟨i, _, hscript, not_not.1 hmissing, fun heq => hnot (hscript.trans (congrArg some heq))⟩
  exact harrived (hunhurried t hr i hm)

theorem Staged.ledger_step (hl : Ledger scripts Given waits h s) (htimely : Timely s a)
    (hgiven : a = .expireOrchestrator → s.locked = false → Given h.phase s.barrier.missing)
    (he : Effect s a es t) : Ledger scripts Given waits (es ++ h) t := by
  have hp := hst.tracked.recorded.pace
  have hp' := (hst.tracked.step he).recorded.pace
  cases he.conducted with
  | rest hes hphase hleft hresults =>
    have hsame : (es ++ h).phase = h.phase := by rw [← hp.phase, ← hp'.phase, hphase]
    have hreturns : (es ++ h).returns = h.returns := by
      rw [returns_append, returns_eq_nil hes, List.append_nil]
    cases hl with
    | going hsum hres =>
      exact .going (by rw [hleft, hsame, hsum]) (by rw [hresults, hreturns, hres])
    | ended hzero hlt hdrop hmissing hres =>
      exact .ended (hleft.trans hzero) (hsame ▸ hlt) (hsame ▸ hdrop) (hsame ▸ hmissing)
        (by rw [hresults, hreturns, hsame, hres])
  | complete hne hc =>
    cases hl with
    | going hsum hres =>
      refine .going ?_ ?_
      · simp only [completed_orchestrator, List.singleton_append, History.phase]
        omega
      · simp [hres]
    | ended hzero => exact absurd hzero hne
  | giveUp hne hlocked hc hb hzero hresults =>
    cases hl with
    | going hsum hres =>
      refine .ended hzero ?_ (hst.droppers_ne_nil hlocked hc htimely) (hgiven rfl hlocked) ?_
      · simp only [List.nil_append]
        omega
      · rw [hresults, Queue.toList_push, hres, List.nil_append, timeout, hp.phase]
    | ended hzero => exact absurd hzero hne

/-! ## What they return, and when -/

theorem Staged.length_returns : h.returns.length = h.phase := by
  rw [hst.tracked.recorded.account.returns, List.length_map, List.length_range]

/-- The results of the waits that completed a phase. -/
theorem Staged.getElem?_completed {r : Except WaitTimeout (List ε)}
    (hr : (h.returns.map .ok)[k]? = some r) : k < h.phase ∧ r = .ok (h.errors k) := by
  rw [hst.tracked.recorded.account.returns, List.map_map, List.getElem?_map,
    Option.map_eq_some_iff] at hr
  obtain ⟨j, hj, rfl⟩ := hr
  obtain ⟨hlt, rfl⟩ := List.getElem?_eq_some_iff.1 hj
  rw [List.length_range] at hlt
  rw [List.getElem_range]
  exact ⟨hlt, rfl⟩

/-- The results of the waits: those that completed a phase, and perhaps a time-out in the current
phase. -/
theorem Staged.getElem?_results (hl : Ledger scripts Given waits h s)
    {r : Except WaitTimeout (List ε)} (hr : s.orchestrator.results.toList[k]? = some r) : k < waits ∧
      (k < h.phase ∧ r = .ok (h.errors k) ∨
        k = h.phase ∧ droppers scripts k ≠ [] ∧ ∃ missing, Given k missing ∧
          r = .error ⟨k, missing⟩) := by
  cases hl with
  | going hsum hres =>
    rw [hres] at hr
    have hdone := hst.getElem?_completed hr
    exact ⟨by omega, .inl hdone⟩
  | @ended missing _ hlt hdrop hmissing hres =>
    have hlength : (h.returns.map (Except.ok (ε := WaitTimeout))).length = h.phase := by
      rw [List.length_map, hst.length_returns]
    by_cases hk : k < h.phase
    · rw [hres, List.getElem?_append_left (hlength ▸ hk)] at hr
      exact ⟨by omega, .inl (hst.getElem?_completed hr)⟩
    · rw [hres, List.getElem?_append_right (by omega), List.getElem?_singleton] at hr
      split at hr
      · cases hr
        have hphase : k = h.phase := by omega
        subst hphase
        exact ⟨hlt, .inr ⟨rfl, hdrop, missing, hmissing, rfl⟩⟩
      · cases hr

theorem Staged.outcome (hl : Ledger scripts (Reported scripts) waits h s)
    {r : Except WaitTimeout (List ε)} (hr : s.orchestrator.results.toList[k]? = some r) :
    k < waits ∧ Outcome scripts k r := by
  obtain ⟨hlt, ⟨hk, rfl⟩ | ⟨rfl, hdrop, missing, hmissing, rfl⟩⟩ := hst.getElem?_results hl hr
  · exact ⟨hlt, .ok (fun j hj => hst.droppers_eq_nil (by omega)) (hst.errors_perm hk)⟩
  · exact ⟨hlt, .timedOut (fun j hj => hst.droppers_eq_nil hj) hdrop hmissing⟩

/-- Where all is quiet, every wait has returned that no time-out comes before. -/
theorem Staged.exists_result (hl : Ledger scripts Given waits h s) (hleft : s.orchestrator.left = 0)
    (hk : k < waits) (hdrop : ∀ j < k, droppers scripts j = []) :
    ∃ r, s.orchestrator.results.toList[k]? = some r := by
  have hlength := hst.length_returns
  refine ⟨_, List.getElem?_eq_getElem (?_ : k < _)⟩
  cases hl with
  | going hsum hres =>
    rw [hres, List.length_map]
    omega
  | ended _ _ hne _ hres =>
    have hle : k ≤ h.phase := Nat.le_of_not_lt fun hlt => hne (hdrop _ hlt)
    rw [hres, List.length_append, List.length_map, List.length_singleton]
    omega

/-- Where all threads rest, every blocking sync of a completed phase has succeeded. -/
theorem Staged.sync_returned (hrest : Resting s) (hscript : scripts[i]? = some script)
    (hth : s.threads[i]? = some th) (hk : k < h.phase) (hr : k < script.rounds) :
    th.results.toList[k]? = some (.ok ()) := by
  rcases (hst.sound i script th hscript hth).result hk hr with hok | ⟨-, j, hj, hreached⟩
  · exact hok
  · obtain ⟨b, hb, rfl⟩ := Option.map_eq_some_iff.1 hreached
    have hblocked : s.blocked? i = some b := (blocked?_of_getElem? hth).trans hb
    have hle := hrest.phase_le hst.wakeful hblocked
    rw [hst.tracked.recorded.pace.phase] at hle
    omega

end

/-! ## Runs -/

theorem staged_start {programs : List (List (Op ε))} (hf : List.Forall₂ Follows programs scripts)
    (waits : Nat) : Staged scripts [] (start programs waits fun _ => true) where
  tracked := hf.length_eq ▸ tracked_start programs waits _
  wakeful := wakeful_start programs waits _
  sound i script th hscript hth := by
    rw [getElem?_threads_start, Option.map_eq_some_iff] at hth
    obtain ⟨todo, htodo, rfl⟩ := hth
    obtain ⟨hi, rfl⟩ := List.getElem?_eq_some_iff.1 htodo
    obtain ⟨hi', rfl⟩ := List.getElem?_eq_some_iff.1 hscript
    have hfollows : Follows programs[i] scripts[i] := (List.forall₂_iff_get.1 hf).2 i hi hi'
    exact .inl (.idle rfl exited_nil rfl (Nat.zero_le _) hfollows rfl)
  timed _ := rfl

theorem staged_of_runWhere {ok : Threads ε → Label → Prop} (hr : (hastyMachine ε).RunWhere ok s as t)
    (htimely : ∀ s a, ok s a → Timely s a)
    (hgiven : ∀ h s, Staged scripts h s → s.locked = false → ok s .expireOrchestrator →
      Given h.phase s.barrier.missing)
    (hst : Staged scripts h s) (hl : Ledger scripts Given waits h s) :
    ∃ h', Staged scripts h' t ∧ Ledger scripts Given waits h' t := by
  induction hr generalizing h with
  | nil s => exact ⟨h, hst, hl⟩
  | cons hok hstep _ ih =>
    obtain ⟨es, he⟩ := effect_of_step hstep
    have htimely := htimely _ _ hok
    exact ih (hst.step htimely he)
      (hst.ledger_step hl htimely (fun heq hlocked => hgiven _ _ hst hlocked (heq ▸ hok)) he)

/-- **The outcome does not depend on the schedule.** On every timely run of threads that follow
these scripts, the `k`-th wait returns what the scripts say, and a blocking sync of a phase that a
wait completed does not fail; if the waits are unhurried, one that gives up reports those alone who drop
their handles. Where nothing else can follow, these syncs have all returned, and so have all waits that
no time-out comes before. Every run can be brought there, and none goes on for ever without, wake-ups
for no reason apart. -/
theorem outcome_of_every_schedule {programs : List (List (Op ε))}
    (hf : List.Forall₂ Follows programs scripts) (waits : Nat)
    (hr : (hastyMachine ε).RunWhere Timely (start programs waits fun _ => true) as t) :
    let results := t.orchestrator.results.toList
    (∀ k r, results[k]? = some r → k < waits ∧ Outcome scripts k r) ∧
    ((hastyMachine ε).RunWhere Unhurried (start programs waits fun _ => true) as t →
      ∀ (k : Nat) (e : WaitTimeout), results[k]? = some (.error e) →
        e = ⟨k, droppers scripts k⟩) ∧
    (∀ (i : Nat) (script : Script ε) (th : Thread ε), scripts[i]? = some script →
      t.threads[i]? = some th → ∀ k < script.rounds, ∀ errors, results[k]? = some (.ok errors) →
        (∀ r, th.results.toList[k]? = some r → r = .ok ()) ∧
        (Quiet t → th.results.toList[k]? = some (.ok ()))) ∧
    (Quiet t → ∀ k < waits, (∀ j < k, droppers scripts j = []) → ∃ r, results[k]? = some r) ∧
    (∃ bs u, (hastyMachine ε).RunWhere Timely t bs u ∧ Quiet u) ∧
    as.length ≤
      (start programs waits fun _ => true).work + 3 * as.countP Label.isWakeup := by
  intro results
  have hstart (Given : Nat → List Nat → Prop) :
      Ledger scripts Given waits [] (start programs waits fun _ => true) := .going rfl rfl
  obtain ⟨h, hst, hl⟩ := staged_of_runWhere hr (fun _ _ htimely => htimely)
    (fun _ _ hst _ _ => hst.reported) (staged_start hf waits) (hstart _)
  have hquiet (hq : Quiet t) := hq.left_eq_zero hst.wakeful hst.tracked hst.timed
  refine ⟨?_, ?_, ?_, ?_, exists_quiet t, ?_⟩
  · intro k r hres
    exact hst.outcome hl hres
  · intro hunhurried k e hres
    obtain ⟨h', hst', hl'⟩ : ∃ h', Staged scripts h' t ∧
        Ledger scripts (fun k missing => missing = droppers scripts k) waits h' t :=
      staged_of_runWhere (hr.and hunhurried) (fun _ _ hok => hok.1)
        (fun _ _ hst hlocked hok => hst.missing_eq_droppers hlocked hok.2) (staged_start hf waits)
        (hstart _)
    obtain ⟨-, ⟨-, hok⟩ | ⟨-, -, missing, rfl, he⟩⟩ := hst'.getElem?_results hl' hres
    · cases hok
    · exact Except.error.inj he
  · intro i script th hscript hth k hk errors hres
    have hlt : k < h.phase := by
      obtain ⟨-, ⟨hlt, -⟩ | ⟨-, -, missing, -, herror⟩⟩ := hst.getElem?_results hl hres
      · exact hlt
      · cases herror
    refine ⟨?_, fun hq => hst.sync_returned (hquiet hq).1 hscript hth hlt hk⟩
    intro r hr
    rcases (hst.sound i script th hscript hth).result hlt hk with hok | ⟨hnone, -⟩
    · exact Option.some.inj (hr.symm.trans hok)
    · rw [hr] at hnone
      cases hnone
  · intro hq k hk hdrop
    exact hst.exists_result hl (hquiet hq).2 hk hdrop
  · have := length_le_of_run (hr.run fun _ _ => rfl)
    omega

/-- Of these four, the second makes a last sync before it leaves, and the fourth drops its handle in
phase 1, in which the first reports its error. -/
theorem outcome_of_settle :
    let scripts : List (Script Nat) :=
      [⟨1, .exit (some 7)⟩, ⟨0, .syncExit none⟩, ⟨0, .exit (some 3)⟩, ⟨1, .drop⟩]
    let results := (ofScripts scripts true 2).settle.orchestrator.results.toList
    List.Forall₂ Follows (scripts.map (·.ops true)) scripts ∧
      results[0]? = some (.ok [3]) ∧ Outcome scripts 0 (.ok [3]) ∧
      results[1]? = some (.error ⟨1, [3]⟩) ∧ Outcome scripts 1 (.error ⟨1, [3]⟩) ∧
      droppers scripts 1 = [3] := by
  intro scripts results
  have hf := forall₂_follows_ops scripts true
  obtain ⟨as, hr⟩ := reaches_settle (ofScripts scripts true 2)
  have hr := runWhere_of_run hr
  obtain ⟨houtcome, hunhurried, -⟩ :=
    outcome_of_every_schedule hf 2 (hr.mono fun _ _ hok => hok.1)
  have hresults : results = [.ok [3], .error ⟨1, [3]⟩] := by decide
  have h0 : results[0]? = some (.ok [3]) := by rw [hresults]; rfl
  have h1 : results[1]? = some (.error ⟨1, [3]⟩) := by rw [hresults]; rfl
  have hdrop := hunhurried (hr.mono fun _ _ hok => hok.2) 1 _ h1
  exact ⟨hf, h0, (houtcome 0 _ h0).2, h1, (houtcome 1 _ h1).2, (WaitTimeout.mk.inj hdrop).2.symm⟩

/-- The first has dropped its handle, so the phase cannot be completed any more. The wait gives up
before the second has left, and reports it too. -/
theorem slow_reported :
    let scripts : List (Script Nat) := [⟨0, .drop⟩, ⟨0, .exit none⟩]
    let begin := start (scripts.map (·.ops true)) 1 fun _ => true
    ∃ t, (hastyMachine Nat).RunWhere Timely begin [.conduct, .conduct, .expireOrchestrator] t ∧
      t.orchestrator.results.toList = [.error ⟨0, [0, 1]⟩] ∧ droppers scripts 0 = [0] := by
  intro scripts begin
  let asleep : Threads Nat :=
    { begin with orchestrator := { begin.orchestrator with stage := .asleep } }
  have htracked : Tracked 2 [] asleep :=
    have ht := tracked_start (scripts.map (·.ops true)) 1 fun _ => true
    ⟨ht.recorded, ht.size, ht.fits, nofun⟩
  have htimely : Timely asleep .expireOrchestrator :=
    htracked.timely_of_missing fun _ u hr =>
      ⟨0, (htracked.missing_of_reaches rfl rfl rfl (by decide) hr).1⟩
  exact ⟨_, .cons trivial rfl (.cons trivial rfl (.cons htimely rfl (.nil _))), by decide, by decide⟩

end Threads

end Lockstep.Barrier
