import Lockstep.Proofs.Barrier.Phases
import Lockstep.Proofs.Runs
import Lockstep.Proofs.Scenario.Steps

/-!
# The waits agree

The three ways to wait for a phase do the same and differ only in how they report the errors
(`WaitKind.report`). A checked wait reads the phase before it waits, and the orchestrator of a scenario
after it has waited. Both read the phase that this wait completed: until a wait completes one, the phase
stays what it is, whatever the participants do (`Tracked.phase_run_of_within`, `Run.phase_of_runWhere`).
-/

set_option autoImplicit false

namespace Lockstep.Barrier

open History

variable {ε : Type}

def Call.isWait : Call ε → Bool
  | .wait _ _ => true
  | _ => false

theorem Call.returns_events {c : Call ε} (hc : c.isWait = false) (a : Answer ε) :
    (c.events a).returns = [] := by
  cases c with
  | wait => cases hc
  | move m => cases a with
    | moved answer => cases m <;> cases answer <;> rfl
    | _ => rfl
  | _ => cases a <;> rfl

namespace Session

variable {n : Nat} {h : History ε} {s : Session ε} {cs : List (Call ε)}

/-- None of the calls is a wait that completes a phase. -/
def Within (s : Session ε) (cs : List (Call ε)) : Prop := (history cs (s.run cs).1).returns = []

/-- What participants do completes no phase. -/
theorem within_of_participants (hcs : ∀ c ∈ cs, c.isWait = false) : s.Within cs := by
  induction cs generalizing s with
  | nil => rfl
  | cons c cs ih =>
    obtain ⟨hc, hcs⟩ := List.forall_mem_cons.1 hcs
    show (history cs ((s.step c).2.run cs).1 ++ c.events (s.step c).1).returns = []
    rw [returns_append, Call.returns_events hc, List.nil_append]
    exact ih hcs

theorem Tracked.phase_run_of_within (ht : Tracked n h s) (hcs : s.Within cs) :
    (s.run cs).2.barrier.phase = s.barrier.phase := by
  rw [(ht.run cs).recorded.pace.phase, phase_append, ← length_returns (history _ _), hcs,
    ht.recorded.pace.phase]
  exact Nat.zero_add _

theorem Tracked.phase_moves (ht : Tracked n h s) (ms : List (Move ε)) :
    (s.moves ms).2.barrier.phase = s.barrier.phase := by
  rw [(ht.moves ms).recorded.pace.phase, phase_append, ← length_returns (movesEvents _ _),
    returns_movesEvents, ht.recorded.pace.phase]
  exact Nat.zero_add _

end Session

end Lockstep.Barrier

namespace Lockstep.Scenario

open Medium Barrier Session

variable {S I : Type} {M : Medium S I}

namespace Run

/-- What is done until the orchestrator goes on leaves the phase alone. -/
theorem phase_of_runWhere {r t : Run S} {as : List (Label I)}
    (hr : (machine M).RunWhere (fun _ a => a ≠ .conduct) r as t) :
    t.barrier.phase = r.barrier.phase := by
  refine hr.invariant (P := fun t => t.barrier.phase = r.barrier.phase) rfl ?_
  intro s a t _ hs hne hstep
  obtain ⟨es, he⟩ := effect_of_step hstep
  exact (he.phase_eq_or.resolve_right fun h => hne h.1).trans hs

/-- The orchestrator completes a phase, and records its errors with the phase it was. -/
theorem of_conduct {r t : Run S} {phase : Phase} {limit : Option Instant} {left : List Phase}
    {failure : Option Failure} (hc : r.conductor = .wait phase limit left failure)
    (hstep : step M r .conduct = some t) :
    t.barrier = r.barrier.advance.2 ∧
      t.conductor =
        .conduct left (recordFailure failure phase r.barrier.phase r.barrier.advance.1) := by
  obtain ⟨es, he⟩ := effect_of_step hstep
  cases he with
  | complete hc' =>
    rw [hc] at hc'
    cases hc'
    exact ⟨rfl, rfl⟩
  | call hc' | overflow hc' | phasesOver hc' | joined hc' =>
    rw [hc] at hc'
    cases hc'

end Run

/-- What is recorded of the first phase with errors is what a checked wait fails with. -/
theorem report_eq_failed_iff {phase : Phase} {k : Nat} {errors : List ParticipantError}
    {failed : PhaseFailed ParticipantError} :
    WaitKind.checked.report k errors = .failed failed ↔
      Run.recordFailure none phase k errors = some ⟨phase, failed⟩ := by
  cases errors <;> simp [WaitKind.report, Run.recordFailure]

/-- **The waits agree.** The phase is read, participants do something (`within_of_participants`), and
then the orchestrator waits. If everyone has arrived, each kind of wait completes the phase that was
read, leads to the same state and reports the same errors, a checked one with that phase; and that phase
is the one before the current phase until the next is completed. If not, no kind of wait changes
anything. In a scenario the orchestrator reads the phase after the wait, and records the first errors as
a checked wait would have reported them. -/
theorem waits_agree {ε : Type} (n : Nat) (cs ds : List (Call ε)) (during : List (Move ε))
    (hds : (after n cs).Within ds) :
    let phase := (after n cs).barrier.phase
    let s := after n (cs ++ ds)
    let answers := (s.moves during).1
    let found := (s.moves during).2
    let errors := found.barrier.advance.1
    let t : Session ε := { found with barrier := found.barrier.advance.2 }
    found.barrier.phase = phase ∧
    (found.barrier.isComplete = true →
      (∀ kind, s.wait kind during = (.waited answers (kind.report phase errors), t)) ∧
      ∀ more, t.Within more → (t.run more).2.barrier.phase = phase + 1) ∧
    (found.barrier.isComplete = false →
      ∀ kind, s.wait kind during = (.waited answers (kind.refusal found.barrier), found)) ∧
    ∀ (S I : Type) (M : Medium S I) (r r' : Run S) (name : Phase) (limit : Option Instant)
      (left : List Phase), r.conductor = .wait name limit left none →
      Run.step M r .conduct = some r' →
      ∃ failure, r'.conductor = .conduct left failure ∧
        (∀ failed, failure = some ⟨name, failed⟩ ↔
          WaitKind.checked.report r.barrier.phase r.barrier.advance.1 = .failed failed) ∧
        ∀ as u, (Run.machine M).RunWhere (fun _ a => a ≠ .conduct) r' as u →
          u.barrier.phase = r.barrier.phase + 1 := by
  intro phase s answers found errors t
  have hs := tracked_run n (cs ++ ds)
  have hbegun : s.barrier.phase = phase := by
    show (after n (cs ++ ds)).barrier.phase = _
    rw [after_append]
    exact (tracked_run n cs).phase_run_of_within hds
  have hfound : found.barrier.phase = phase := (hs.phase_moves during).trans hbegun
  refine ⟨hfound, fun hc => ⟨fun kind => ?_, fun more hmore => ?_⟩, fun hc kind => ?_, ?_⟩
  · rw [wait_eq_of_complete kind hc, hbegun]
  · have ht := (hs.moves during).advance hc
    rw [ht.phase_run_of_within hmore]
    exact congrArg (· + 1) hfound
  · exact wait_of_not_complete kind (Bool.eq_false_iff.1 hc)
  · intro S I M r r' name limit left hc hstep
    obtain ⟨hbarrier, hconductor⟩ := Run.of_conduct hc hstep
    refine ⟨_, hconductor, fun failed => report_eq_failed_iff.symm, fun as u hr => ?_⟩
    rw [Run.phase_of_runWhere hr, hbarrier]
    rfl

/-- Between the reading of the phase and the wait the participant 0 arrives and gives up, and the
participant 1 leaves with an error. -/
theorem failed_amid_arrivals :
    let ds : List (Call Nat) := [.syncWait 0 true, .giveUp 0, .move (.exit 1 (some 7))]
    (after 2 [.issueAll]).Within ds ∧ ∃ t : Session Nat,
      (after 2 ([.issueAll] ++ ds)).wait .checked [] = (.waited [] (.failed ⟨0, [7]⟩), t) ∧
        t.barrier.phase = 1 := by
  intro ds
  have hds : (after 2 [.issueAll]).Within ds := within_of_participants (by decide)
  obtain ⟨-, hcomplete, -⟩ := waits_agree 2 [.issueAll] ds [] hds
  obtain ⟨hwait, hphase⟩ := hcomplete rfl
  exact ⟨hds, _, hwait .checked, hphase [] rfl⟩

end Lockstep.Scenario
