import Lockstep.Proofs.Barrier.Steps

/-!
# Nobody sleeps for nothing

Two invariants of every run of the threads of a barrier, whatever their programs do and whenever
time-outs expire:

* `Tracked n h s`: `h` is the history of the barrier of the threads `s`, a blocked thread has made
  the sync that it waits for, and a thread that has left does nothing more;
* `Wakeful s`: who sleeps, or has the lock and is about to sleep, waits for something that has not
  come, and one thread at most has the lock.

They hold at the start (`tracked_start`, `wakeful_start`), and every step keeps them
(`Tracked.step`, `Tracked.wakeful_step`). So where neither a participant nor the orchestrator can go
on by itself, each has finished or sleeps for good reason (`Wakeful.resting`).
-/

set_option autoImplicit false

namespace Lockstep.Barrier.Threads

open History

variable {ε : Type}

/-- Who may have to wait. -/
inductive Waiter where
  | orchestrator
  | participant (p : Nat)
  deriving Repr, DecidableEq

/-- Where somebody stands who has to wait. -/
def stage? (s : Threads ε) : Waiter → Option Stage
  | .orchestrator => some s.orchestrator.stage
  | .participant p => (s.blocked? p).map (·.stage)

/-- What somebody waits for has come. -/
def Due (s : Threads ε) : Waiter → Prop
  | .orchestrator => s.barrier.isComplete = true
  | .participant p => ∃ b, s.blocked? p = some b ∧ b.reached < s.barrier.phase

/-- The thread of the participant `p` fits the history `h`. -/
structure Fits (h : History ε) (p : Nat) (th : Thread ε) : Prop where
  blocked : ∀ k, th.reached? = some k → ¬ h.Exited p ∧ h.syncs p = k + 1
  gone : h.Exited p → th.todo = []

/-- The barrier and its threads fit the history `h`. -/
structure Tracked (n : Nat) (h : History ε) (s : Threads ε) : Prop where
  recorded : Recorded n h s.barrier
  size : s.threads.length = n
  fits : ∀ p th, s.threads[p]? = some th → Fits h p th
  ended : s.orchestrator.left = 0 → s.orchestrator.stage = .awake

/-- Who sleeps or is about to sleep has reason to, and one thread at most has the lock. -/
structure Wakeful (s : Threads ε) : Prop where
  undue : ∀ w stage, s.stage? w = some stage → stage ≠ .awake → ¬ s.Due w
  holder : ∃ holder : Option Waiter,
    s.locked = holder.isSome ∧ ∀ w, s.stage? w = some .holding ↔ holder = some w

variable {n : Nat} {h es : History ε} {s t : Threads ε} {a : Label} {p q : Nat}
  {th th' : Thread ε}

/-! ## The history fits -/

theorem getElem?_threads_start {programs : List (List (Op ε))} {waits : Nat} {timed : Nat → Bool} :
    (start programs waits timed).threads[p]? = programs[p]?.map fun todo => { todo } :=
  List.getElem?_map

theorem tracked_start (programs : List (List (Op ε))) (waits : Nat) (timed : Nat → Bool) :
    Tracked programs.length [] (start programs waits timed) where
  recorded := recorded_start programs waits timed
  size := List.length_map _
  fits p th hth := by
    rw [getElem?_threads_start, Option.map_eq_some_iff] at hth
    obtain ⟨todo, -, rfl⟩ := hth
    exact ⟨nofun, fun hx => absurd hx exited_nil⟩
  ended _ := rfl

theorem Fits.turn (hf : Fits h p th) (hp : Pace n h s.barrier) (hturn : Turn s p a es th th') :
    Fits (es ++ h) p th' := by
  cases hturn with
  | rest htodo _ hreached hes =>
    refine ⟨?_, ?_⟩
    · intro k hk
      rw [exited_append_of_ne hes, syncs_append_of_ne hes]
      exact hf.blocked k (hreached ▸ hk)
    · intro hx
      rw [htodo]
      exact hf.gone ((exited_append_of_ne hes).1 hx)
  | resume hb | late hb =>
    exact ⟨nofun, fun hx => absurd hx (hf.blocked _ (Thread.reached?_of_blocked hb)).1⟩
  | refused _ _ _ hs => exact ⟨nofun, fun hx => absurd hx (hp.of_refused hs).2.1⟩
  | sync _ _ hs =>
    exact ⟨nofun, fun hx => absurd (exited_synced.1 hx) (hp.of_sync hs).2.1⟩
  | syncWait _ _ hs =>
    obtain ⟨-, hx, hsyncs⟩ := hp.of_sync hs
    refine ⟨fun k hk => ⟨mt exited_synced.1 hx, ?_⟩, fun hx' => absurd (exited_synced.1 hx') hx⟩
    cases hk
    simp [hsyncs, hp.phase]
  | exit hb =>
    refine ⟨?_, fun _ => rfl⟩
    intro k hk
    rw [Thread.reached?, hb] at hk
    cases hk

/-- Who waits for a phase that is not completed has arrived in the current one. -/
theorem Fits.phase_eq {k : Nat} (hf : Fits h p th) (hp : Pace n h s.barrier)
    (hr : th.reached? = some k) (hle : s.barrier.phase ≤ k) : h.phase = k := by
  have hsyncs := (hf.blocked k hr).2
  have hmax := hp.syncs_le p
  rw [hp.phase] at hle
  omega

theorem Effect.ended (he : Effect s a es t)
    (hended : s.orchestrator.left = 0 → s.orchestrator.stage = .awake) :
    t.orchestrator.left = 0 → t.orchestrator.stage = .awake := by
  cases he with
  | look | sleep | wake | resume | late | refused => exact hended
  | complete | wakeOrchestrator | giveUp => exact fun _ => rfl
  | conductLook hleft | conductSleep hleft => exact fun h => absurd h hleft
  | sync | syncWait | exit =>
    intro h
    rw [notifyIfComplete_left] at h
    have hstage := hended h
    rw [notifyIfComplete_stage, setThread_orchestrator, hstage]
    split <;> rfl

theorem Tracked.step (ht : Tracked n h s) (he : Effect s a es t) : Tracked n (es ++ h) t where
  recorded := he.recorded ht.recorded
  size := he.length_threads.trans ht.size
  fits p th' hth' := by
    obtain ⟨th, hth, hturn⟩ := he.exists_turn hth'
    exact (ht.fits p th hth).turn ht.recorded.pace hturn
  ended := he.ended ht.ended

theorem Tracked.exists_thread (ht : Tracked n h s) (hlt : p < n) :
    ∃ th, s.threads[p]? = some th :=
  ⟨_, List.getElem?_eq_getElem (ht.size ▸ hlt)⟩

theorem Tracked.lt (ht : Tracked n h s) (hth : s.threads[p]? = some th) : p < n :=
  ht.size ▸ (List.getElem?_eq_some_iff.1 hth).1

/-! ## Sleeping and the lock -/

theorem wakeful_start (programs : List (List (Op ε))) (waits : Nat) (timed : Nat → Bool) :
    Wakeful (start programs waits timed) := by
  have hstage (w : Waiter) (stage : Stage)
      (hs : (start programs waits timed).stage? w = some stage) : stage = .awake := by
    cases w with
    | orchestrator =>
      cases hs
      rfl
    | participant p =>
      rw [stage?, blocked?, getElem?_threads_start] at hs
      cases hp : programs[p]? <;> simp [hp] at hs
  refine ⟨fun w stage hs hne => absurd (hstage w stage hs) hne, none, rfl, ?_⟩
  intro w
  refine ⟨fun hs => ?_, nofun⟩
  cases hstage w _ hs

/-- A step leaves the waiter alone, or wakes it up. -/
def Spares (s t : Threads ε) (w : Waiter) : Prop :=
  t.stage? w = s.stage? w ∧ (t.Due w → s.Due w) ∨
    t.stage? w = some .awake ∧ s.stage? w ≠ some .holding

theorem Wakeful.not_holding (hw : Wakeful s) (hl : s.locked = false) (w : Waiter) :
    s.stage? w ≠ some .holding := by
  obtain ⟨holder, hlocked, hholds⟩ := hw.holder
  intro hs
  rw [(hholds w).1 hs, hl] at hlocked
  cases hlocked

theorem Spares.holding_iff {w : Waiter} (hs : Spares s t w) :
    t.stage? w = some .holding ↔ s.stage? w = some .holding := by
  rcases hs with ⟨h1, -⟩ | ⟨h1, h2⟩
  · rw [h1]
  · simp [h1, h2]

/-- What a step of `w₀` does to the lock. -/
inductive Locks (s t : Threads ε) (w₀ : Waiter) : Prop
  | rest : t.locked = s.locked → s.stage? w₀ ≠ some .holding → t.stage? w₀ ≠ some .holding →
      Locks s t w₀
  | lock : s.locked = false → t.locked = true → t.stage? w₀ = some .holding → Locks s t w₀
  | unlock : s.stage? w₀ = some .holding → t.locked = false → t.stage? w₀ ≠ some .holding →
      Locks s t w₀

theorem Wakeful.change (hw : Wakeful s) (w₀ : Waiter) (hothers : ∀ w, w ≠ w₀ → Spares s t w)
    (hself : ∀ stage, t.stage? w₀ = some stage → stage ≠ .awake → ¬ t.Due w₀)
    (hlocks : Locks s t w₀) : Wakeful t := by
  refine ⟨?_, ?_⟩
  · intro w stage hs hne
    by_cases he : w = w₀
    · subst he
      exact hself stage hs hne
    · rcases hothers w he with ⟨h1, h2⟩ | ⟨h1, -⟩
      · exact hw.undue w stage (h1 ▸ hs) hne ∘ h2
      · rw [h1, Option.some.injEq] at hs
        exact absurd hs.symm hne
  · -- only `w₀` can have taken the lock or given it back
    have holding_iff (w : Waiter) (he : w ≠ w₀) := (hothers w he).holding_iff
    obtain ⟨holder, hlocked, hholds⟩ := hw.holder
    cases hlocks with
    | rest hl hs ht =>
      refine ⟨holder, hl.trans hlocked, ?_⟩
      intro w
      by_cases he : w = w₀
      · subst he
        rw [← hholds w]
        simp [hs, ht]
      · rw [holding_iff w he, hholds w]
    | lock hl hl' ht =>
      refine ⟨some w₀, hl', ?_⟩
      intro w
      by_cases he : w = w₀
      · simp [he, ht]
      · rw [holding_iff w he, Option.some.injEq]
        simp [hw.not_holding hl w, Ne.symm he]
    | unlock hs hl' ht =>
      have hholder := (hholds w₀).1 hs
      refine ⟨none, hl', ?_⟩
      intro w
      by_cases he : w = w₀
      · simp [he, ht]
      · rw [holding_iff w he, hholds w, hholder]
        simp [Ne.symm he]

/-! ### Participants -/

theorem blocked?_of_getElem? (hth : s.threads[p]? = some th) : s.blocked? p = th.blocked := by
  rw [blocked?, hth]
  rfl

section
variable (hth : s.threads[p]? = some th) (hs : t.threads = s.threads.set p th')
include hs

theorem blocked?_of_set_ne (hne : q ≠ p) : t.blocked? q = s.blocked? q := by
  rw [blocked?, hs, List.getElem?_set_ne (Ne.symm hne), blocked?]

include hth

theorem blocked?_of_set : t.blocked? p = th'.blocked := by
  rw [blocked?, hs, List.getElem?_set_self (List.getElem?_eq_some_iff.1 hth).1]
  rfl

theorem stage?_of_set : t.stage? (.participant p) = th'.blocked.map (·.stage) := by
  rw [stage?, blocked?_of_set hth hs]

/-- A step of a participant that has reason to sleep afterwards, if it does. -/
theorem Wakeful.turn (hw : Wakeful s) (hphase : t.barrier.phase = s.barrier.phase)
    (horchestrator : Spares s t .orchestrator)
    (hself : ∀ b, th'.blocked = some b → b.stage ≠ .awake → s.barrier.phase ≤ b.reached)
    (hlocks : Locks s t (.participant p)) : Wakeful t := by
  have hblocked := blocked?_of_set hth hs
  refine hw.change (.participant p) ?_ ?_ hlocks
  · intro w hne
    cases w with
    | orchestrator => exact horchestrator
    | participant q =>
      have hq := blocked?_of_set_ne hs (q := q) (by simpa using hne)
      left
      rw [stage?, stage?, Due, Due, hq, hphase]
      exact ⟨rfl, id⟩
  · intro stage hstage hne hdue
    obtain ⟨b, hb, hlt⟩ := hdue
    rw [stage?, hb, Option.map_some, Option.some.injEq] at hstage
    rw [hphase] at hlt
    exact Nat.not_le_of_lt hlt (hself b (hblocked ▸ hb) (hstage ▸ hne))

/-- A critical section after which the participant is up. -/
theorem Wakeful.turn_awake (hw : Wakeful s) (hl : s.locked = false) (hl' : t.locked = false)
    (hphase : t.barrier.phase = s.barrier.phase) (horchestrator : Spares s t .orchestrator)
    (hself : ∀ b, th'.blocked = some b → b.stage = .awake) : Wakeful t := by
  refine hw.turn hth hs hphase horchestrator (fun b hb hne => absurd (hself b hb) hne)
    (.rest (hl'.trans hl.symm) (hw.not_holding hl _) ?_)
  rw [stage?_of_set hth hs]
  cases hb : th'.blocked with
  | none => simp
  | some b => simp [hself b hb]

end

/-- An arrival leaves the orchestrator alone, or wakes it up if it completes the phase. -/
theorem Wakeful.spares_notify (hw : Wakeful s) (hl : s.locked = false)
    (hp : Pace n h t.barrier) (ho : t.orchestrator = s.orchestrator) :
    Spares s t.notifyIfComplete .orchestrator := by
  have hstage : t.notifyIfComplete.stage? .orchestrator =
      some (if t.barrier.arrived = t.barrier.total then s.orchestrator.stage.notified
        else s.orchestrator.stage) := by
    rw [stage?, notifyIfComplete_stage, ho]
  by_cases hc : t.barrier.arrived = t.barrier.total
  · rw [if_pos hc] at hstage
    have hnot := hw.not_holding hl .orchestrator
    refine .inr ⟨hstage.trans ?_, hnot⟩
    cases ho : s.orchestrator.stage with
    | holding => exact absurd (congrArg some ho) hnot
    | awake | asleep => rfl
  · rw [if_neg hc] at hstage
    refine .inl ⟨hstage, fun hdue => absurd ?_ hc⟩
    rw [Due, notifyIfComplete_barrier, isComplete_iff] at hdue
    exact Nat.le_antisymm (hp.total ▸ hp.arrived_le) hdue

/-- An arrival after which the participant is up. -/
theorem Wakeful.arrive {b : Barrier ε} (hw : Wakeful s) (hth : s.threads[p]? = some th)
    (hl : s.locked = false) (hp : Pace n h b) (hphase : b.phase = s.barrier.phase)
    (hself : ∀ b, th'.blocked = some b → b.stage = .awake) :
    Wakeful (notifyIfComplete ({ s with barrier := b }.setThread p th')) := by
  refine hw.turn_awake hth notifyIfComplete_threads hl ?_ ?_ (hw.spares_notify hl hp rfl) hself
  · rw [notifyIfComplete_locked]
    exact hl
  · rw [notifyIfComplete_barrier]
    exact hphase

/-! ### The orchestrator -/

/-- A completed phase leaves nobody asleep. -/
theorem Wakeful.spares_completed (hw : Wakeful s) (hl : s.locked = false) {w : Waiter}
    (hne : w ≠ .orchestrator) : Spares s s.completed w := by
  cases w with
  | orchestrator => exact absurd rfl hne
  | participant p =>
    have hblocked : s.completed.blocked? p =
        (s.blocked? p).map fun b => { b with stage := b.stage.notified } := by
      rw [blocked?, completed_threads, List.getElem?_map, blocked?]
      cases s.threads[p]? <;> rfl
    have hnot := hw.not_holding hl (.participant p)
    rw [Spares, Due, stage?, stage?, hblocked]
    rw [stage?] at hnot
    cases hb : s.blocked? p with
    | none => exact .inl ⟨rfl, by simp⟩
    | some b =>
      rw [hb] at hnot
      refine .inr ⟨?_, hnot⟩
      cases hstage : b.stage with
      | holding => simp [hstage] at hnot
      | awake | asleep => simp [hstage, Stage.notified]

/-- A step of the orchestrator that touches no thread. -/
theorem Wakeful.wait (hw : Wakeful s) (hthreads : t.threads = s.threads)
    (hbarrier : t.barrier = s.barrier)
    (hself : t.orchestrator.stage ≠ .awake → s.barrier.isComplete = false)
    (hlocks : Locks s t .orchestrator) : Wakeful t := by
  refine hw.change .orchestrator ?_ ?_ hlocks
  · intro w hne
    cases w with
    | orchestrator => exact absurd rfl hne
    | participant q =>
      left
      rw [stage?, stage?, Due, Due, blocked?, blocked?, hthreads, hbarrier]
      exact ⟨rfl, id⟩
  · intro stage hstage hne hdue
    rw [Due, hbarrier, hself] at hdue
    · cases hdue
    · cases hstage
      exact hne

theorem Tracked.wakeful_step (ht : Tracked n h s) (hw : Wakeful s) (he : Effect s a es t) :
    Wakeful t := by
  have hp := ht.recorded.pace
  cases he with
  | @look p th b hth hb _ hl hle =>
    refine hw.turn hth rfl rfl (.inl ⟨rfl, id⟩) ?_ (.lock hl rfl ?_)
    · intro b' hb' _
      cases hb'
      exact hle
    · rw [stage?_of_set hth rfl]
      rfl
  | @sleep p th b hth hb hstage =>
    have hblocked : s.blocked? p = some b := (blocked?_of_getElem? hth).trans hb
    have hholding : s.stage? (.participant p) = some .holding := by
      rw [stage?, hblocked, Option.map_some, hstage]
    refine hw.turn hth rfl rfl (.inl ⟨rfl, id⟩) ?_ (.unlock hholding rfl ?_)
    · intro b' hb' _
      cases hb'
      -- it has had the lock since it looked, so no phase was completed meanwhile
      exact Nat.le_of_not_lt fun hlt => hw.undue _ _ hholding nofun ⟨b, hblocked, hlt⟩
    · rw [stage?_of_set hth rfl]
      simp
  | wake hth hb hstage =>
    refine hw.turn hth rfl rfl (.inl ⟨rfl, id⟩) ?_ (.rest rfl ?_ ?_)
    · intro b' hb' hne
      cases hb'
      exact absurd rfl hne
    · simp [stage?, blocked?_of_getElem? hth, hb, hstage]
    · rw [stage?_of_set hth rfl]
      simp
  | resume hth _ hl | late hth _ hl | refused hth _ _ hl =>
    refine hw.turn_awake hth rfl hl hl rfl (.inl ⟨rfl, id⟩) fun b hb => ?_
    cases hb
  | sync hth _ _ hl hs =>
    have hphase := (hp.sync hs).phase.trans hp.phase.symm
    exact hw.arrive hth hl (hp.sync hs) hphase nofun
  | syncWait hth _ _ hl hs =>
    have hphase := (hp.sync hs).phase.trans hp.phase.symm
    refine hw.arrive hth hl (hp.sync hs) hphase fun b' hb' => ?_
    cases hb'
    rfl
  | exit hth hb _ hl hs =>
    have hphase := (hp.exit hs).phase.trans hp.phase.symm
    refine hw.arrive hth hl (hp.exit hs) hphase ?_
    intro b' hb'
    rw [hb] at hb'
    cases hb'
  | complete hleft hl hc ha =>
    refine hw.change .orchestrator (fun w hne => hw.spares_completed hl hne) ?_ (.rest rfl ?_ ?_)
    · intro stage hstage hne
      cases hstage
      exact absurd rfl hne
    · exact hw.not_holding hl _
    · simp [stage?]
  | conductLook hleft hstage hl hc => exact hw.wait rfl rfl (fun _ => hc) (.lock hl rfl rfl)
  | conductSleep hleft hstage =>
    have hholding : s.stage? .orchestrator = some .holding := congrArg some hstage
    refine hw.wait rfl rfl ?_ (.unlock hholding rfl (by simp [stage?]))
    intro _
    exact Bool.eq_false_iff.2 (hw.undue .orchestrator _ hholding nofun)
  | wakeOrchestrator hstage | giveUp _ _ hstage =>
    refine hw.wait rfl rfl (fun hne => absurd rfl hne) (.rest rfl ?_ ?_)
    · simp [stage?, hstage]
    · simp [stage?]

/-! ## Where nobody can go on -/

/-- No thread can go on by itself: every participant has finished or sleeps, and so does the
orchestrator. -/
structure Resting (s : Threads ε) : Prop where
  unlocked : s.locked = false
  finished : ∀ (p : Nat) (th : Thread ε), s.threads[p]? = some th → th.blocked = none →
    th.todo = []
  asleep : ∀ p b, s.blocked? p = some b → b.stage = .asleep
  orchestrator : s.orchestrator.left ≠ 0 → s.orchestrator.stage = .asleep

theorem getElem?_of_blocked? {b : Blocked} (hb : s.blocked? p = some b) :
    ∃ th, s.threads[p]? = some th ∧ th.blocked = some b :=
  Option.bind_eq_some_iff.1 hb

/-- A participant that sleeps does so in the current phase. -/
theorem Resting.phase_le {b : Blocked} (hrest : Resting s) (hw : Wakeful s)
    (hb : s.blocked? p = some b) : s.barrier.phase ≤ b.reached := by
  have hstage : s.stage? (.participant p) = some .asleep := by
    rw [stage?, hb, Option.map_some, hrest.asleep p b hb]
  exact Nat.le_of_not_lt fun hlt => hw.undue _ _ hstage nofun ⟨b, hb, hlt⟩

/-- A thread that has the lock can go on. -/
theorem Wakeful.unlocked (hw : Wakeful s) (ht : Tracked n h s)
    (hact : ∀ p, s.step (.act p) = none) (hconduct : s.step .conduct = none) :
    s.locked = false := by
  obtain ⟨holder, hlocked, hholds⟩ := hw.holder
  cases holder with
  | none => exact hlocked
  | some w =>
    have hholding := (hholds w).2 rfl
    cases w with
    | orchestrator =>
      have hstage : s.orchestrator.stage = .holding := Option.some.inj hholding
      have hleft : s.orchestrator.left ≠ 0 := fun h => by
        rw [ht.ended h] at hstage
        cases hstage
      exact absurd hconduct (Effect.conductSleep hleft hstage).not_none
    | participant p =>
      obtain ⟨b, hb, hstage⟩ := Option.map_eq_some_iff.1 hholding
      obtain ⟨th, hth, hb⟩ := getElem?_of_blocked? hb
      exact absurd (hact p) (Effect.sleep hth hb hstage).not_none

/-- A thread that has something left to do can do it when the lock is free, and leaves it free. -/
theorem Tracked.exists_act (ht : Tracked n h s) (hl : s.locked = false)
    (hth : s.threads[p]? = some th) (hb : th.blocked = none) (htodo : th.todo ≠ []) :
    ∃ es t, Effect s (.act p) es t ∧ t.locked = false := by
  have hp := ht.recorded.pace
  have hlt := ht.lt hth
  have hx : ¬ h.Exited p := fun hx => htodo ((ht.fits p th hth).gone hx)
  obtain ⟨op, ops, hop⟩ := List.exists_cons_of_ne_nil htodo
  cases op with
  | sync =>
    obtain ⟨r, hs⟩ := hp.exists_sync hlt hx
    cases r with
    | error e => exact ⟨_, _, .refused hth hb hop hl (.inl rfl) hs, hl⟩
    | ok b => exact ⟨_, _, .sync hth hb hop hl hs, by simpa using hl⟩
  | syncWait timed more =>
    obtain ⟨r, hs⟩ := hp.exists_sync hlt hx
    cases r with
    | error e => exact ⟨_, _, .refused hth hb hop hl (.inr ⟨timed, more, rfl⟩) hs, hl⟩
    | ok b => exact ⟨_, _, .syncWait hth hb hop hl hs, by simpa using hl⟩
  | exit error =>
    obtain ⟨b, hs⟩ := hp.exists_exit error hlt hx
    exact ⟨_, _, .exit hth hb hop hl hs, by simpa using hl⟩

theorem Wakeful.resting (hw : Wakeful s) (ht : Tracked n h s)
    (hact : ∀ p, s.step (.act p) = none) (hconduct : s.step .conduct = none) : Resting s := by
  have hl := hw.unlocked ht hact hconduct
  refine ⟨hl, ?_, ?_, ?_⟩
  · intro p th hth hb
    by_contra htodo
    obtain ⟨es, t, he, -⟩ := ht.exists_act hl hth hb htodo
    exact he.not_none (hact p)
  · intro p b hb
    have hnot := hw.not_holding hl (.participant p)
    obtain ⟨th, hth, hblocked⟩ := getElem?_of_blocked? hb
    cases hstage : b.stage with
    | asleep => rfl
    | holding => simp [stage?, hb, hstage] at hnot
    | awake =>
      by_cases hle : s.barrier.phase ≤ b.reached
      · exact absurd (hact p) (Effect.look hth hblocked hstage hl hle).not_none
      · have hlt := Nat.lt_of_not_le hle
        exact absurd (hact p) (Effect.resume hth hblocked hl hlt (.inl ⟨rfl, hstage⟩)).not_none
  · intro hleft
    have hnot := hw.not_holding hl .orchestrator
    cases hstage : s.orchestrator.stage with
    | asleep => rfl
    | holding => simp [stage?, hstage] at hnot
    | awake =>
      cases hc : s.barrier.isComplete with
      | true => exact absurd hconduct (Effect.complete hleft hl hc (.inl ⟨rfl, hstage⟩)).not_none
      | false => exact absurd hconduct (Effect.conductLook hleft hstage hl hc).not_none

end Lockstep.Barrier.Threads
