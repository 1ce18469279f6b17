import Lockstep.Proofs.Barrier.Wakeups

/-!
# Sleeping threads that decide as they go

`Threads.hastyMachine` runs threads whose programs are given in advance, and its orchestrator does
not wait again after a wait that gave up. `openMachine` has the same steps, and besides a participant
that has not left can have further calls to make, and an orchestrator that has returned from its last
wait can begin to wait again. What the threads decide changes neither the barrier nor where anybody
waits, so the invariants of `Wakeups` hold there as well (`Tracked.choice`, `Wakeful.choice`), and
nobody sleeps whose condition has come (`asleep_for_good_reason`).
-/

set_option autoImplicit false

namespace Lockstep.Barrier.Threads

open History

variable {ε : Type}

/-- A step, or what a thread decides to do next. -/
inductive Choice (ε : Type) where
  | step (a : Label)
  /-- The participant `p` has further calls to make. -/
  | extend (p : Nat) (ops : List (Op ε))
  /-- The orchestrator begins to wait again, up to `waits` times. -/
  | rewait (waits : Nat) (timed : Nat → Bool)

/-- A participant that has left has no handle to make calls with. -/
def extend (s : Threads ε) (p : Nat) (ops : List (Op ε)) : Option (Threads ε) := do
  let th ← s.threads[p]?
  guard (s.barrier.slots[p]? ≠ some .done)
  return s.setThread p { th with todo := th.todo ++ ops }

def rewait (s : Threads ε) (waits : Nat) (timed : Nat → Bool) : Option (Threads ε) :=
  if s.orchestrator.left = 0 then
    some { s with orchestrator := { s.orchestrator with left := waits, timed } }
  else none

/-- The threads, with nothing decided in advance and time-outs that expire at any time. -/
def openMachine (ε : Type) : Machine (Threads ε) (Choice ε) where
  step s
    | .step a => s.step a
    | .extend p ops => s.extend p ops
    | .rewait waits timed => s.rewait waits timed

variable {n : Nat} {h : History ε} {s t : Threads ε} {p : Nat} {ops : List (Op ε)} {waits : Nat}
  {timed : Nat → Bool} {c : Choice ε}

theorem extend_eq_some_iff : s.extend p ops = some t ↔
    ∃ th, s.threads[p]? = some th ∧ s.barrier.slots[p]? ≠ some .done ∧
      t = s.setThread p { th with todo := th.todo ++ ops } := by
  simp only [extend, Option.bind_eq_bind, Option.bind_eq_some_iff, Option.guard_eq_some',
    Option.pure_def, Option.some.injEq, exists_const]
  exact exists_congr fun th => and_congr_right' (and_congr_right' eq_comm)

theorem rewait_eq_some_iff : s.rewait waits timed = some t ↔ s.orchestrator.left = 0 ∧
    t = { s with orchestrator := { s.orchestrator with left := waits, timed } } := by
  rw [rewait, Option.ite_none_right_eq_some, Option.some.injEq, eq_comm (a := t)]

/-! ## Decisions change nothing that is waited for -/

theorem Tracked.extend (ht : Tracked n h s) (hs : s.extend p ops = some t) : Tracked n h t := by
  obtain ⟨th, hth, hactive, rfl⟩ := extend_eq_some_iff.1 hs
  have hlt := (List.getElem?_eq_some_iff.1 hth).1
  refine ⟨ht.recorded, (List.length_set).trans ht.size, fun q th' hth' => ?_, ht.ended⟩
  by_cases hq : p = q
  · subst hq
    rw [setThread_threads, List.getElem?_set_self hlt, Option.some.injEq] at hth'
    subst hth'
    have hf := ht.fits p th hth
    exact ⟨hf.blocked, fun hx => absurd (ht.recorded.pace.done p hx) hactive⟩
  · rw [setThread_threads, List.getElem?_set_ne hq] at hth'
    exact ht.fits q th' hth'

/-- Who waits where, for what, and who has the lock is all there is to sleeping. -/
theorem Wakeful.congr (hw : Wakeful s) (hstage : ∀ w, t.stage? w = s.stage? w)
    (hdue : ∀ w, t.Due w → s.Due w) (hlocked : t.locked = s.locked) : Wakeful t where
  undue w stage hs hne := mt (hdue w) (hw.undue w stage (hstage w ▸ hs) hne)
  holder := by
    obtain ⟨holder, hsome, hholds⟩ := hw.holder
    exact ⟨holder, hlocked.trans hsome, fun w => hstage w ▸ hholds w⟩

theorem blocked?_extend (hs : s.extend p ops = some t) (q : Nat) : t.blocked? q = s.blocked? q := by
  obtain ⟨th, hth, -, rfl⟩ := extend_eq_some_iff.1 hs
  by_cases hq : q = p
  · subst hq
    rw [blocked?_of_set hth rfl, blocked?_of_getElem? hth]
  · exact blocked?_of_set_ne rfl hq

theorem Wakeful.extend (hw : Wakeful s) (hs : s.extend p ops = some t) : Wakeful t := by
  have hblocked := blocked?_extend hs
  obtain ⟨th, -, -, rfl⟩ := extend_eq_some_iff.1 hs
  refine hw.congr (fun w => ?_) (fun w hdue => ?_) rfl
  · cases w with
    | orchestrator => rfl
    | participant q => rw [stage?, stage?, hblocked q]
  · cases w with
    | orchestrator => exact hdue
    | participant q =>
      obtain ⟨b, hb, hlt⟩ := hdue
      exact ⟨b, hblocked q ▸ hb, hlt⟩

theorem Wakeful.rewait (hw : Wakeful s) (hs : s.rewait waits timed = some t) : Wakeful t := by
  obtain ⟨-, rfl⟩ := rewait_eq_some_iff.1 hs
  refine hw.congr (fun w => ?_) (fun w hdue => ?_) rfl
  · cases w <;> rfl
  · cases w <;> exact hdue

/-- The orchestrator is up between its waits. -/
theorem Tracked.rewait (ht : Tracked n h s) (hs : s.rewait waits timed = some t) :
    Tracked n h t := by
  obtain ⟨hleft, rfl⟩ := rewait_eq_some_iff.1 hs
  exact ⟨ht.recorded, ht.size, ht.fits, fun _ => ht.ended hleft⟩

/-! ## Every run -/

theorem Tracked.choice (ht : Tracked n h s) (hw : Wakeful s)
    (hs : (openMachine ε).step s c = some t) : ∃ h', Tracked n h' t ∧ Wakeful t := by
  cases c with
  | step a =>
    obtain ⟨es, he⟩ := effect_of_step hs
    exact ⟨es ++ h, ht.step he, ht.wakeful_step hw he⟩
  | extend p ops => exact ⟨h, ht.extend hs, hw.extend hs⟩
  | rewait waits timed => exact ⟨h, ht.rewait hs, hw.rewait hs⟩

theorem wakeful_of_reaches {programs : List (List (Op ε))}
    (hr : (openMachine ε).Reaches (start programs waits timed) t) :
    ∃ h, Tracked programs.length h t ∧ Wakeful t := by
  obtain ⟨as, hrun⟩ := hr
  refine hrun.invariant (P := fun s => ∃ h, Tracked programs.length h s ∧ Wakeful s)
    ⟨[], tracked_start programs waits timed, wakeful_start programs waits timed⟩ ?_
  rintro s c t ⟨h, ht, hw⟩ hnext
  exact ht.choice hw hnext.2

/-- A blocked participant arrived in the phase that its slot shows. -/
theorem Tracked.slot_of_blocked (ht : Tracked n h s) {b : Blocked} (hb : s.blocked? p = some b) :
    s.barrier.slots[p]? = some (.active (some b.reached)) ∧ b.reached ≤ s.barrier.phase := by
  obtain ⟨th, hth, hblocked⟩ := getElem?_of_blocked? hb
  have hp := ht.recorded.pace
  obtain ⟨hx, hsyncs⟩ := (ht.fits p th hth).blocked _ (Thread.reached?_of_blocked hblocked)
  have hle := hp.syncs_le p
  rw [hp.active p (ht.lt hth) hx, hp.syncPhases p, hsyncs, List.getLast?_range, hp.phase]
  exact ⟨by simp, by omega⟩

/-- **Nobody sleeps, or has the lock and is about to, whose condition has come**, in any run of any
threads: the orchestrator waits for somebody who is missing, and a participant waits in the phase in
which it arrived. -/
theorem asleep_for_good_reason {programs : List (List (Op ε))} {waits : Nat} {timed : Nat → Bool}
    {t : Threads ε} (hr : (openMachine ε).Reaches (start programs waits timed) t) :
    (t.orchestrator.stage ≠ .awake → t.barrier.arrived < t.barrier.total) ∧
    ∀ p b, t.blocked? p = some b → b.stage ≠ .awake →
      t.barrier.phase = b.reached ∧
        t.barrier.slots[p]? = some (.active (some t.barrier.phase)) := by
  obtain ⟨h, ht, hw⟩ := wakeful_of_reaches hr
  refine ⟨fun hne => ?_, fun p b hb hne => ?_⟩
  · have hdue := hw.undue .orchestrator _ rfl hne
    rwa [Due, isComplete_iff, Nat.not_le] at hdue
  · obtain ⟨hslot, hle⟩ := ht.slot_of_blocked hb
    have hstage : t.stage? (.participant p) = some b.stage := by rw [stage?, hb]; rfl
    have hdue := hw.undue _ _ hstage hne
    have hphase : t.barrier.phase = b.reached := by
      refine Nat.le_antisymm (Nat.le_of_not_lt fun hlt => hdue ⟨b, hb, hlt⟩) hle
    exact ⟨hphase, hphase.symm ▸ hslot⟩

/-- Two participants decide to sync, and one of them sleeps. The orchestrator has given up one wait
and sleeps in the next. -/
theorem asleep_in_second_wait :
    let choices : List (Choice Nat) := [.rewait 1 fun _ => true, .step .conduct, .step .conduct,
      .step .expireOrchestrator, .extend 0 [.syncWait false 0], .step (.act 0), .step (.act 0),
      .step (.act 0), .rewait 1 fun _ => true, .step .conduct, .step .conduct]
    ∃ t, choices.foldlM (openMachine Nat).step (start [[], []] 0 fun _ => false) = some t ∧
      t.orchestrator.stage = .asleep ∧ t.blocked? 0 = some ⟨false, 0, .asleep⟩ ∧
      t.barrier.arrived < t.barrier.total ∧ t.barrier.phase = 0 := by
  intro choices
  let s : Threads Nat := start [[], []] 0 fun _ => false
  have hcomputed : (choices.foldlM (openMachine Nat).step s).map
      (fun t => (t.orchestrator.stage, t.blocked? 0)) =
        some (.asleep, some ⟨false, 0, .asleep⟩) := by decide
  obtain ⟨t, hrun, heq⟩ := Option.map_eq_some_iff.1 hcomputed
  obtain ⟨hstage, hblocked⟩ := Prod.mk.inj heq
  have hr : (openMachine Nat).Reaches s t := ⟨_, Machine.run_of_foldlM (fun _ _ => rfl) hrun⟩
  obtain ⟨horchestrator, hparticipant⟩ := asleep_for_good_reason hr
  refine ⟨t, hrun, hstage, hblocked, horchestrator ?_, (hparticipant 0 _ hblocked nofun).1⟩
  rw [hstage]
  nofun

end Lockstep.Barrier.Threads
