import Mathlib.Data.Option.Basic
import Lockstep.Barrier.Threads
import Lockstep.Proofs.Barrier.History

/-!
# What a step of the threads does

`Threads.Effect s a es t` lists everything a step can do, one constructor for each place in the code
where a thread goes on; `es` is what the step adds to the history of the barrier. `step_eq_some_iff`
says that these are the steps, so that a proof about them is one case analysis, and
`Effect.recorded` that the history is right.
-/

set_option autoImplicit false

namespace Lockstep.Barrier

variable {ε : Type}

/-- The phase in which a blocked thread arrived. -/
def Thread.reached? (th : Thread ε) : Option Nat := th.blocked.map (·.reached)

theorem Thread.reached?_of_blocked {th : Thread ε} {b : Blocked} (hb : th.blocked = some b) :
    th.reached? = some b.reached := by
  rw [reached?, hb]
  rfl

/-- The thread after the phase was completed. -/
def Thread.notified (th : Thread ε) : Thread ε :=
  { th with blocked := th.blocked.map fun b => { b with stage := b.stage.notified } }

@[simp] theorem Thread.reached?_notified (th : Thread ε) : th.notified.reached? = th.reached? := by
  cases hb : th.blocked <;> simp [notified, reached?, hb]

namespace Threads

/-- The call in which the participant `p` is blocked. -/
def blocked? (s : Threads ε) (p : Nat) : Option Blocked := s.threads[p]?.bind (·.blocked)

inductive Effect (s : Threads ε) : Label → History ε → Threads ε → Prop
  /-- A blocked participant finds that its phase is not completed, and keeps the lock. -/
  | look {p th b} : s.threads[p]? = some th → th.blocked = some b → b.stage = .awake →
      s.locked = false → s.barrier.phase ≤ b.reached →
      Effect s (.act p) [] ({ s with locked := true }.setThread p
        { th with blocked := some { b with stage := .holding } })
  | sleep {p th b} : s.threads[p]? = some th → th.blocked = some b → b.stage = .holding →
      Effect s (.act p) [] ({ s with locked := false }.setThread p
        { th with blocked := some { b with stage := .asleep } })
  | wake {p th b} : s.threads[p]? = some th → th.blocked = some b → b.stage = .asleep →
      Effect s (.wake p) [] (s.setThread p { th with blocked := some { b with stage := .awake } })
  /-- A blocked participant finds its phase completed, on its own or at its time-out. -/
  | resume {p a th b} : s.threads[p]? = some th → th.blocked = some b → s.locked = false →
      b.reached < s.barrier.phase →
      a = .act p ∧ b.stage = .awake ∨ a = .expire p ∧ b.stage = .asleep ∧ b.timed = true →
      Effect s a [] (s.setThread p th.synced)
  | late {p th b} : s.threads[p]? = some th → th.blocked = some b → s.locked = false →
      s.barrier.phase ≤ b.reached → b.stage = .asleep → b.timed = true →
      Effect s (.expire p) [] (s.setThread p (th.fail (.timedOut b.reached)))
  | refused {p th op ops e} : s.threads[p]? = some th → th.blocked = none → th.todo = op :: ops →
      s.locked = false → op = .sync ∨ (∃ timed more, op = .syncWait timed more) →
      s.barrier.sync p = some (.error e) → Effect s (.act p) [] (s.setThread p (th.fail e))
  | sync {p th ops b} : s.threads[p]? = some th → th.blocked = none → th.todo = .sync :: ops →
      s.locked = false → s.barrier.sync p = some (.ok b) →
      Effect s (.act p) [.synced p]
        (notifyIfComplete ({ s with barrier := b }.setThread p th.synced))
  | syncWait {p th timed more ops b} : s.threads[p]? = some th → th.blocked = none →
      th.todo = .syncWait timed more :: ops → s.locked = false →
      s.barrier.sync p = some (.ok b) →
      Effect s (.act p) [.synced p]
        (notifyIfComplete ({ s with barrier := b }.setThread p
          { th with blocked := some ⟨timed, b.phase, .awake⟩ }))
  | exit {p th error ops b} : s.threads[p]? = some th → th.blocked = none →
      th.todo = .exit error :: ops → s.locked = false → s.barrier.exit p error = some b →
      Effect s (.act p) [.exited p error]
        (notifyIfComplete ({ s with barrier := b }.setThread p { th with todo := [] }))
  /-- The orchestrator finds the phase complete, on its own or at its time-out. -/
  | complete {a} : s.orchestrator.left ≠ 0 → s.locked = false → s.barrier.isComplete = true →
      a = .conduct ∧ s.orchestrator.stage = .awake ∨
        a = .expireOrchestrator ∧ s.orchestrator.stage = .asleep ∧
          s.orchestrator.timed (s.orchestrator.left - 1) = true →
      Effect s a [.completed s.barrier.advance.1] s.completed
  | conductLook : s.orchestrator.left ≠ 0 → s.orchestrator.stage = .awake → s.locked = false →
      s.barrier.isComplete = false →
      Effect s .conduct [] { s with
        locked := true, orchestrator := { s.orchestrator with stage := .holding } }
  | conductSleep : s.orchestrator.left ≠ 0 → s.orchestrator.stage = .holding →
      Effect s .conduct [] { s with
        locked := false, orchestrator := { s.orchestrator with stage := .asleep } }
  | wakeOrchestrator : s.orchestrator.stage = .asleep →
      Effect s .wakeOrchestrator [] { s with
        orchestrator := { s.orchestrator with stage := .awake } }
  | giveUp : s.orchestrator.left ≠ 0 → s.orchestrator.timed (s.orchestrator.left - 1) = true →
      s.orchestrator.stage = .asleep → s.locked = false → s.barrier.isComplete = false →
      Effect s .expireOrchestrator [] { s with orchestrator := { s.orchestrator with
        left := 0
        stage := .awake
        results := s.orchestrator.results.push (.error s.barrier.timeout) } }

/-- What a step by `a` does to the thread of the participant `p`. -/
inductive Turn (s : Threads ε) (p : Nat) : Label → History ε → Thread ε → Thread ε → Prop
  /-- Nothing, except for where it waits. -/
  | rest {a es th th'} : th'.todo = th.todo → th'.results = th.results →
      th'.reached? = th.reached? → (∀ e ∈ es, e.participant? ≠ some p) → Turn s p a es th th'
  | resume {a th b} : th.blocked = some b → b.reached < s.barrier.phase →
      Turn s p a [] th th.synced
  | late {th b} : th.blocked = some b → s.barrier.phase ≤ b.reached →
      Turn s p (.expire p) [] th (th.fail (.timedOut b.reached))
  | refused {th op ops e} : th.blocked = none → th.todo = op :: ops →
      op = .sync ∨ (∃ timed more, op = .syncWait timed more) →
      s.barrier.sync p = some (.error e) → Turn s p (.act p) [] th (th.fail e)
  | sync {th ops b} : th.blocked = none → th.todo = .sync :: ops →
      s.barrier.sync p = some (.ok b) → Turn s p (.act p) [.synced p] th th.synced
  | syncWait {th timed more ops b} : th.blocked = none → th.todo = .syncWait timed more :: ops →
      s.barrier.sync p = some (.ok b) →
      Turn s p (.act p) [.synced p] th
        { th with blocked := some ⟨timed, s.barrier.phase, .awake⟩ }
  | exit {th error ops b} : th.blocked = none → th.todo = .exit error :: ops →
      s.barrier.exit p error = some b →
      Turn s p (.act p) [.exited p error] th { th with todo := [] }

/-- What a step by `a` does to the waits of the orchestrator. -/
inductive Conducted (s : Threads ε) : Label → History ε → Threads ε → Prop
  /-- Nothing, except for where it waits. -/
  | rest {a es t} : (∀ e ∈ es, e.participant? ≠ none) → t.barrier.phase = s.barrier.phase →
      t.orchestrator.left = s.orchestrator.left → t.orchestrator.results = s.orchestrator.results →
      Conducted s a es t
  | complete {a} : s.orchestrator.left ≠ 0 → s.barrier.isComplete = true →
      Conducted s a [.completed s.barrier.advance.1] s.completed
  | giveUp {t} : s.orchestrator.left ≠ 0 → s.locked = false → s.barrier.isComplete = false →
      t.barrier = s.barrier → t.orchestrator.left = 0 →
      t.orchestrator.results = s.orchestrator.results.push (.error s.barrier.timeout) →
      Conducted s .expireOrchestrator [] t

variable {s t : Threads ε} {a : Label} {p q : Nat} {th th' : Thread ε}

/-! ## Steps are effects -/

theorem effect_of_perform {op : Op ε} {ops : List (Op ε)} (hth : s.threads[p]? = some th)
    (hb : th.blocked = none) (hop : th.todo = op :: ops) (hl : s.locked = false)
    (h : s.perform p th op = some t) : ∃ es, Effect s (.act p) es t := by
  cases op with
  | sync =>
    simp only [perform, Option.bind_eq_bind, Option.bind_eq_some_iff] at h
    obtain ⟨r, hs, h⟩ := h
    cases r with
    | ok b =>
      cases h
      exact ⟨_, .sync hth hb hop hl hs⟩
    | error e =>
      cases h
      exact ⟨_, .refused hth hb hop hl (.inl rfl) hs⟩
  | syncWait timed more =>
    simp only [perform, Option.bind_eq_bind, Option.bind_eq_some_iff] at h
    obtain ⟨r, hs, h⟩ := h
    cases r with
    | ok b =>
      cases h
      exact ⟨_, .syncWait hth hb hop hl hs⟩
    | error e =>
      cases h
      exact ⟨_, .refused hth hb hop hl (.inr ⟨timed, more, rfl⟩) hs⟩
  | exit error =>
    simp only [perform, Option.bind_eq_bind, Option.bind_eq_some_iff] at h
    obtain ⟨b, hs, h⟩ := h
    cases h
    exact ⟨_, .exit hth hb hop hl hs⟩

theorem effect_of_act (h : s.act p = some t) : ∃ es, Effect s (.act p) es t := by
  simp only [act, Option.bind_eq_bind, Option.bind_eq_some_iff] at h
  obtain ⟨th, hth, h⟩ := h
  cases hb : th.blocked with
  | some b =>
    cases hstage : b.stage with
    | asleep =>
      simp only [hb, hstage, reduceCtorEq] at h
    | holding =>
      simp only [hb, hstage] at h
      cases h
      exact ⟨_, .sleep hth hb hstage⟩
    | awake =>
      simp only [hb, hstage, Option.bind_eq_some_iff, Option.guard_eq_some', Bool.not_eq_true',
        exists_const] at h
      obtain ⟨hl, h⟩ := h
      split at h
      · rename_i hle
        cases h
        exact ⟨_, .look hth hb hstage hl hle⟩
      · rename_i hle
        cases h
        exact ⟨_, .resume hth hb hl (Nat.lt_of_not_le hle) (.inl ⟨rfl, hstage⟩)⟩
  | none =>
    simp only [hb, Option.bind_eq_some_iff, Option.guard_eq_some', Bool.not_eq_true',
      exists_const] at h
    obtain ⟨hl, h⟩ := h
    split at h
    · cases h
    · rename_i hop
      exact effect_of_perform hth hb hop hl h

theorem effect_of_wake (h : s.wake p = some t) : ∃ es, Effect s (.wake p) es t := by
  simp only [wake, Option.bind_eq_bind, Option.bind_eq_some_iff] at h
  obtain ⟨th, hth, h⟩ := h
  split at h
  · rename_i hb
    cases h
    exact ⟨_, .wake hth hb rfl⟩
  · cases h

theorem effect_of_expire (h : s.expire p = some t) : ∃ es, Effect s (.expire p) es t := by
  simp only [expire, Option.bind_eq_bind, Option.bind_eq_some_iff] at h
  obtain ⟨th, hth, h⟩ := h
  split at h
  · rename_i hb
    simp only [Option.bind_eq_some_iff, Option.guard_eq_some', Bool.not_eq_true',
      exists_const] at h
    obtain ⟨hl, h⟩ := h
    split at h
    · rename_i hle
      cases h
      exact ⟨_, .late hth hb hl hle rfl rfl⟩
    · rename_i hle
      cases h
      exact ⟨_, .resume hth hb hl (Nat.lt_of_not_le hle) (.inr ⟨rfl, rfl, rfl⟩)⟩
  · cases h

theorem effect_of_conduct (h : s.conduct = some t) : ∃ es, Effect s .conduct es t := by
  simp only [conduct, Option.bind_eq_bind, Option.bind_eq_some_iff, Option.guard_eq_some',
    exists_const] at h
  obtain ⟨hleft, h⟩ := h
  split at h
  · cases h
  · rename_i hstage
    cases h
    exact ⟨_, .conductSleep hleft hstage⟩
  · rename_i hstage
    simp only [Option.bind_eq_some_iff, Option.guard_eq_some', Bool.not_eq_true',
      exists_const] at h
    obtain ⟨hl, h⟩ := h
    split at h
    · rename_i hc
      cases h
      exact ⟨_, .complete hleft hl hc (.inl ⟨rfl, hstage⟩)⟩
    · rename_i hc
      cases h
      exact ⟨_, .conductLook hleft hstage hl (Bool.eq_false_iff.2 hc)⟩

theorem effect_of_expireOrchestrator (h : s.expireOrchestrator = some t) :
    ∃ es, Effect s .expireOrchestrator es t := by
  simp only [expireOrchestrator, Option.bind_eq_bind, Option.bind_eq_some_iff,
    Option.guard_eq_some', exists_const] at h
  obtain ⟨⟨hleft, htimed, hstage, hl⟩, h⟩ := h
  split at h
  · rename_i hc
    cases h
    exact ⟨_, .complete hleft hl hc (.inr ⟨rfl, hstage, htimed⟩)⟩
  · rename_i hc
    cases h
    exact ⟨_, .giveUp hleft htimed hstage hl (Bool.eq_false_iff.2 hc)⟩

theorem effect_of_step (h : s.step a = some t) : ∃ es, Effect s a es t := by
  cases a with
  | act p => exact effect_of_act h
  | conduct => exact effect_of_conduct h
  | wake p => exact effect_of_wake h
  | wakeOrchestrator =>
    simp only [step, wakeOrchestrator] at h
    split at h
    · rename_i hstage
      cases h
      exact ⟨_, .wakeOrchestrator hstage⟩
    · cases h
  | expire p => exact effect_of_expire h
  | expireOrchestrator => exact effect_of_expireOrchestrator h

theorem Effect.step_eq {es : History ε} (he : Effect s a es t) : s.step a = some t := by
  cases he with
  | look hth hb hstage hl hle => simp [step, act, guard, hth, hb, hstage, hl, hle]
  | sleep hth hb hstage => simp [step, act, guard, hth, hb, hstage]
  | @wake p th b hth hb hstage =>
    obtain ⟨timed, reached, stage⟩ := b
    cases hstage
    simp [step, Threads.wake, hth, hb]
  | @resume p a th b hth hb hl hlt ha =>
    obtain ⟨timed, reached, stage⟩ := b
    rcases ha with ⟨rfl, hstage⟩ | ⟨rfl, hstage, htimed⟩
    · cases hstage
      simp [step, act, guard, hth, hb, hl, Nat.not_le_of_lt hlt]
    · cases hstage
      cases htimed
      simp [step, expire, guard, hth, hb, hl, Nat.not_le_of_lt hlt]
  | @late p th b hth hb hl hle hstage htimed =>
    obtain ⟨timed, reached, stage⟩ := b
    cases hstage
    cases htimed
    simp [step, expire, guard, hth, hb, hl, hle]
  | refused hth hb hop hl hsync hs =>
    rcases hsync with rfl | ⟨timed, more, rfl⟩ <;>
      simp [step, act, guard, perform, hth, hb, hop, hl, hs]
  | sync hth hb hop hl hs => simp [step, act, guard, perform, hth, hb, hop, hl, hs]
  | syncWait hth hb hop hl hs => simp [step, act, guard, perform, hth, hb, hop, hl, hs]
  | exit hth hb hop hl hs => simp [step, act, guard, perform, hth, hb, hop, hl, hs]
  | complete hleft hl hc ha =>
    rcases ha with ⟨rfl, hstage⟩ | ⟨rfl, hstage, htimed⟩
    · simp [step, conduct, guard, hleft, hl, hc, hstage]
    · simp [step, expireOrchestrator, guard, hleft, hl, hc, hstage, htimed]
  | conductLook hleft hstage hl hc => simp [step, conduct, guard, hleft, hl, hc, hstage]
  | conductSleep hleft hstage => simp [step, conduct, guard, hleft, hstage]
  | wakeOrchestrator hstage => simp [step, Threads.wakeOrchestrator, hstage]
  | giveUp hleft htimed hstage hl hc =>
    simp [step, expireOrchestrator, guard, hleft, hl, hc, hstage, htimed]

/-- The effects are the steps. -/
theorem step_eq_some_iff : s.step a = some t ↔ ∃ es, Effect s a es t :=
  ⟨effect_of_step, fun ⟨_, he⟩ => he.step_eq⟩

theorem Effect.not_none {es : History ε} (he : Effect s a es t) : s.step a ≠ none := by
  rw [he.step_eq]
  nofun

/-! ## The parts of the threads -/

@[simp] theorem setThread_barrier : (s.setThread p th).barrier = s.barrier := rfl

@[simp] theorem setThread_locked : (s.setThread p th).locked = s.locked := rfl

@[simp] theorem setThread_orchestrator : (s.setThread p th).orchestrator = s.orchestrator := rfl

@[simp] theorem setThread_threads : (s.setThread p th).threads = s.threads.set p th := rfl

@[simp] theorem notifyIfComplete_barrier : s.notifyIfComplete.barrier = s.barrier := by
  unfold notifyIfComplete; split <;> rfl

@[simp] theorem notifyIfComplete_locked : s.notifyIfComplete.locked = s.locked := by
  unfold notifyIfComplete; split <;> rfl

@[simp] theorem notifyIfComplete_threads : s.notifyIfComplete.threads = s.threads := by
  unfold notifyIfComplete; split <;> rfl

@[simp] theorem notifyIfComplete_left :
    s.notifyIfComplete.orchestrator.left = s.orchestrator.left := by
  unfold notifyIfComplete; split <;> rfl

@[simp] theorem notifyIfComplete_timed :
    s.notifyIfComplete.orchestrator.timed = s.orchestrator.timed := by
  unfold notifyIfComplete; split <;> rfl

@[simp] theorem notifyIfComplete_results :
    s.notifyIfComplete.orchestrator.results = s.orchestrator.results := by
  unfold notifyIfComplete; split <;> rfl

theorem notifyIfComplete_stage : s.notifyIfComplete.orchestrator.stage =
    if s.barrier.arrived = s.barrier.total then s.orchestrator.stage.notified
    else s.orchestrator.stage := by
  unfold notifyIfComplete; split <;> rfl

@[simp] theorem completed_barrier : s.completed.barrier = s.barrier.advance.2 := rfl

@[simp] theorem completed_locked : s.completed.locked = s.locked := rfl

@[simp] theorem completed_threads : s.completed.threads = s.threads.map Thread.notified := rfl

@[simp] theorem completed_orchestrator : s.completed.orchestrator = { s.orchestrator with
    left := s.orchestrator.left - 1
    stage := .awake
    results := s.orchestrator.results.push (.ok s.barrier.advance.1) } := rfl

/-! ## The history of a run -/

variable {n : Nat} {h es : History ε}

theorem recorded_start (programs : List (List (Op ε))) (waits : Nat) (timed : Nat → Bool) :
    Recorded programs.length [] (start programs waits timed).barrier :=
  .issue _ .fresh

theorem Effect.recorded (he : Effect s a es t) (hr : Recorded n h s.barrier) :
    Recorded n (es ++ h) t.barrier := by
  cases he with
  | look | sleep | wake | resume | late | refused => exact hr
  | conductLook | conductSleep | wakeOrchestrator | giveUp => exact hr
  | sync _ _ _ _ hs | syncWait _ _ _ _ hs =>
    rw [notifyIfComplete_barrier]
    exact hr.sync hs
  | exit _ _ _ _ hs =>
    rw [notifyIfComplete_barrier]
    exact hr.exit hs
  | complete _ _ hc => exact hr.advance hc

theorem Effect.length_threads (he : Effect s a es t) : t.threads.length = s.threads.length := by
  cases he <;> simp

/-! ## One thread -/

theorem Turn.refl {es : History ε} (hes : ∀ e ∈ es, e.participant? ≠ some p) :
    Turn s p a es th th :=
  .rest rfl rfl rfl hes

/-- A step that touches the thread of `q` alone is the turn of `q`, and others rest. -/
theorem turn_of_set {th'' : Thread ε} (hq : s.threads[q]? = some th')
    (hs : t.threads = s.threads.set q th'')
    (hturn : Turn s q a es th' th'') (hes : ∀ e ∈ es, e.participant? = some q)
    (hp : s.threads[p]? = some th) : ∃ th', t.threads[p]? = some th' ∧ Turn s p a es th th' := by
  by_cases he : q = p
  · subst he
    rw [hq] at hp
    cases hp
    have hlt : q < s.threads.length := (List.getElem?_eq_some_iff.1 hq).1
    exact ⟨th'', by rw [hs, List.getElem?_set_self hlt], hturn⟩
  · refine ⟨th, by rw [hs, List.getElem?_set_ne he, hp], .refl fun e hm => ?_⟩
    rw [hes e hm]
    simpa using he

theorem Effect.turn (he : Effect s a es t) (hp : s.threads[p]? = some th) :
    ∃ th', t.threads[p]? = some th' ∧ Turn s p a es th th' := by
  cases he with
  | look hth hb | sleep hth hb | wake hth hb =>
    refine turn_of_set hth rfl (.rest rfl rfl ?_ (List.forall_mem_nil _)) (List.forall_mem_nil _) hp
    rw [Thread.reached?_of_blocked hb]
    rfl
  | resume hth hb _ hlt => exact turn_of_set hth rfl (.resume hb hlt) (List.forall_mem_nil _) hp
  | late hth hb _ hle => exact turn_of_set hth rfl (.late hb hle) (List.forall_mem_nil _) hp
  | refused hth hb hop _ hsync hs =>
    exact turn_of_set hth rfl (.refused hb hop hsync hs) (List.forall_mem_nil _) hp
  | sync hth hb hop _ hs =>
    exact turn_of_set hth (by simp) (.sync hb hop hs) (by simp [Event.participant?]) hp
  | syncWait hth hb hop _ hs =>
    obtain ⟨reached, hslot, hne, rfl⟩ := sync_eq_ok_iff.1 hs
    exact turn_of_set hth (by simp) (.syncWait hb hop hs) (by simp [Event.participant?]) hp
  | exit hth hb hop _ hs =>
    exact turn_of_set hth (by simp) (.exit hb hop hs) (by simp [Event.participant?]) hp
  | complete =>
    exact ⟨th.notified, by simp [hp],
      .rest rfl rfl th.reached?_notified (by simp [Event.participant?])⟩
  | conductLook | conductSleep | wakeOrchestrator | giveUp =>
    exact ⟨th, hp, .refl (List.forall_mem_nil _)⟩

/-- Every thread after a step was there before, and has had its turn. -/
theorem Effect.exists_turn (he : Effect s a es t) (hth' : t.threads[p]? = some th') :
    ∃ th, s.threads[p]? = some th ∧ Turn s p a es th th' := by
  have hlt : p < s.threads.length := by
    rw [← he.length_threads]
    exact (List.getElem?_eq_some_iff.1 hth').1
  have hth : s.threads[p]? = some s.threads[p] := List.getElem?_eq_getElem hlt
  obtain ⟨th'', h1, h2⟩ := he.turn hth
  rw [hth', Option.some.injEq] at h1
  exact ⟨_, hth, h1 ▸ h2⟩

/-! ## The orchestrator -/

theorem Effect.conducted (he : Effect s a es t) : Conducted s a es t := by
  cases he with
  | look | sleep | wake | resume | late | refused | conductLook | conductSleep | wakeOrchestrator =>
    exact .rest (List.forall_mem_nil _) rfl rfl rfl
  | sync _ _ _ _ hs | syncWait _ _ _ _ hs =>
    obtain ⟨reached, -, -, rfl⟩ := sync_eq_ok_iff.1 hs
    exact .rest (by simp [Event.participant?]) (by simp) (by simp) (by simp)
  | exit _ _ _ _ hs =>
    obtain ⟨reached, -, ⟨-, rfl⟩ | ⟨-, rfl⟩⟩ := exit_eq_some_iff.1 hs
    all_goals exact .rest (by simp [Event.participant?]) (by simp) (by simp) (by simp)
  | complete hleft _ hc => exact .complete hleft hc
  | giveUp hleft _ _ hl hc => exact .giveUp hleft hl hc rfl rfl rfl

theorem Effect.timed_eq (he : Effect s a es t) : t.orchestrator.timed = s.orchestrator.timed := by
  cases he <;> simp

end Threads

end Lockstep.Barrier
