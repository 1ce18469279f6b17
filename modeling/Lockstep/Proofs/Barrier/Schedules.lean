import Lockstep.Proofs.Barrier.Termination
import Lockstep.Proofs.Barrier.Wakeups
import Lockstep.Proofs.Runs

/-!
# Time-outs that are long enough

A time-out is `Timely` if it expires only when what its call waits for can no longer come, whatever
happens. A wait may then still give up before everyone has arrived who can; it is `Unhurried` if it does
not. The runs of `Threads.machine`, where time-outs expire only when no thread can go on, have only
time-outs that are both (`runWhere_of_run`).

A state is `Quiet` if nothing but wake-ups for no reason can follow. There the orchestrator has
returned from its last wait (`Quiet.left_eq_zero`).
-/

set_option autoImplicit false

namespace Lockstep.Barrier.Threads

open History

variable {ε : Type}

/-- What the call that runs out of time waits for can no longer come: a participant's, that the
phase goes on; a wait's, that everyone has arrived. -/
def Timely (s : Threads ε) : Label → Prop
  | .expire p => ∀ b, s.blocked? p = some b → s.barrier.phase ≤ b.reached →
      ∀ t, (hastyMachine ε).Reaches s t → t.barrier.phase ≤ b.reached
  | .expireOrchestrator => s.barrier.isComplete = false →
      ∀ t, (hastyMachine ε).Reaches s t → t.barrier.isComplete = false
  | _ => True

/-- Nobody can arrive any more who is missing when a wait runs out of time. -/
def Unhurried (s : Threads ε) : Label → Prop
  | .expireOrchestrator => ∀ t, (hastyMachine ε).Reaches s t →
      ∀ p ∈ s.barrier.missing, p ∈ t.barrier.missing
  | _ => True

/-- Nothing but wake-ups for no reason can follow. -/
def Quiet (s : Threads ε) : Prop :=
  ∀ a t, Timely s a → s.step a = some t → a.isWakeup = true

variable {n : Nat} {h es : History ε} {s t : Threads ε} {a : Label} {as : List Label} {p q : Nat}
  {th th' : Thread ε}

/-! ## What can follow -/

/-- What every step keeps holds in all that can follow. -/
theorem reaches_induction {P : Threads ε → Prop} (hr : (hastyMachine ε).Reaches s t) (hs : P s)
    (hstep : ∀ s a es t, P s → Effect s a es t → P t) : P t := by
  obtain ⟨as, hrun⟩ := hr
  refine hrun.invariant hs ?_
  intro s a t hs hnext
  obtain ⟨es, he⟩ := effect_of_step hnext.2
  exact hstep s a es t hs he

theorem Effect.reaches (he : Effect s a es t) : (hastyMachine ε).Reaches s t :=
  ⟨[a], .cons ⟨nofun, he.step_eq⟩ (.nil t)⟩

/-- The phase stays where there are no waits left. -/
theorem phase_eq_of_left_eq_zero (hr : (hastyMachine ε).Reaches s t)
    (hleft : s.orchestrator.left = 0) : t.barrier.phase = s.barrier.phase := by
  let P (u : Threads ε) := u.orchestrator.left = 0 ∧ u.barrier.phase = s.barrier.phase
  refine (reaches_induction (P := P) hr ⟨hleft, rfl⟩ ?_).2
  intro u a es v hu he
  cases he.conducted with
  | rest _ hphase hleft => exact ⟨hleft.trans hu.1, hphase.trans hu.2⟩
  | complete hne | giveUp hne => exact absurd hu.1 hne

/-- A thread that has finished and is missing stays so, and the phase with it. -/
theorem Tracked.missing_of_reaches (ht : Tracked n h s) (hth : s.threads[p]? = some th)
    (hb : th.blocked = none) (htodo : th.todo = []) (hm : p ∈ s.barrier.missing)
    (hr : (hastyMachine ε).Reaches s t) :
    p ∈ t.barrier.missing ∧ t.barrier.phase = s.barrier.phase := by
  have hp := ht.recorded.pace
  obtain ⟨hlt, hna⟩ := hp.mem_missing_iff.1 hm
  rw [hp.arrived_iff, not_or] at hna
  let P (u : Threads ε) := ∃ h', Tracked n (h' ++ h) u ∧ (∀ e ∈ h', e.participant? ≠ some p) ∧
    ∃ th, u.threads[p]? = some th ∧ th.blocked = none ∧ th.todo = []
  have hkept : P t := by
    refine reaches_induction hr ⟨[], ht, List.forall_mem_nil _, th, hth, hb, htodo⟩ ?_
    rintro u a es v ⟨h', hu, hne, th, hth, hb, htodo⟩ he
    obtain ⟨th', hth', hturn⟩ := he.turn hth
    cases hturn with
    | rest htodo' _ hreached hes =>
      refine ⟨es ++ h', List.append_assoc es h' h ▸ hu.step he, ?_, th', hth', ?_,
        htodo'.trans htodo⟩
      · intro e hm
        exact (List.mem_append.1 hm).elim (hes e) (hne e)
      · rw [Thread.reached?, Thread.reached?, hb] at hreached
        simpa using hreached
    | resume hb' | late hb' =>
      rw [hb] at hb'
      cases hb'
    | refused _ hop | sync _ hop | syncWait _ hop | exit _ hop =>
      rw [htodo] at hop
      cases hop
  obtain ⟨h', ht', hne, -⟩ := hkept
  have hp' := ht'.recorded.pace
  -- the participant has made as many syncs as before, so the phase cannot have gone on
  have hx' : ¬ Exited p (h' ++ h) := mt (exited_append_of_ne hne).1 hna.1
  have hsyncs : syncs p (h' ++ h) = h.syncs p := syncs_append_of_ne hne
  have hle := hp'.phase_le p hlt hx'
  have hphase := phase_append h' h
  have h1 := hp.syncs_le p
  have h2 := hp.phase_le p hlt hna.1
  have hsame : (h' ++ h).phase = h.phase := by omega
  rw [hp'.mem_missing_iff, hp'.arrived_iff, not_or, hp'.phase, hp.phase, hsyncs, hsame]
  exact ⟨⟨hlt, hx', hna.2⟩, rfl⟩

/-! ## Where no thread can go on -/

/-- Whoever is missing then has finished. -/
theorem Resting.finished_of_missing (hrest : Resting s) (hw : Wakeful s) (ht : Tracked n h s)
    (hm : p ∈ s.barrier.missing) :
    ∃ th, s.threads[p]? = some th ∧ th.blocked = none ∧ th.todo = [] := by
  have hp := ht.recorded.pace
  obtain ⟨hlt, hna⟩ := hp.mem_missing_iff.1 hm
  obtain ⟨th, hth⟩ := ht.exists_thread hlt
  refine ⟨th, hth, ?_⟩
  cases hb : th.blocked with
  | none => exact ⟨rfl, hrest.finished p _ hth hb⟩
  | some b =>
    -- a sleeping participant has arrived
    exfalso
    have hf := ht.fits p th hth
    have hr := Thread.reached?_of_blocked hb
    have hle := hrest.phase_le hw ((blocked?_of_getElem? hth).trans hb)
    have hsyncs : h.syncs p = h.phase + 1 := by
      rw [hf.phase_eq hp hr hle]
      exact (hf.blocked _ hr).2
    exact hna (hp.arrived_iff.2 (.inr hsyncs))

/-- Where no thread can go on, the missing cannot arrive any more. -/
theorem Resting.unhurried (hrest : Resting s) (hw : Wakeful s) (ht : Tracked n h s) :
    Unhurried s .expireOrchestrator := by
  intro t hr p hm
  obtain ⟨th, hth, hb, htodo⟩ := hrest.finished_of_missing hw ht hm
  exact (ht.missing_of_reaches hth hb htodo hm hr).1

/-- A wait is hopeless where somebody will be missing whatever happens. -/
theorem Tracked.timely_of_missing (ht : Tracked n h s)
    (hmissing : s.barrier.isComplete = false →
      ∀ t, (hastyMachine ε).Reaches s t → ∃ p, p ∈ t.barrier.missing) :
    Timely s .expireOrchestrator := by
  intro hc t hr
  obtain ⟨h', ht'⟩ : ∃ h', Tracked n h' t :=
    reaches_induction (P := fun u => ∃ h', Tracked n h' u) hr ⟨h, ht⟩
      fun s a es t ⟨h, hs⟩ he => ⟨_, hs.step he⟩
  obtain ⟨p, hm⟩ := hmissing hc t hr
  rw [Bool.eq_false_iff, ne_eq, ← ht'.recorded.pace.missing_eq_nil_iff]
  exact List.ne_nil_of_mem hm

theorem Unhurried.timely (hu : Unhurried s .expireOrchestrator) (ht : Tracked n h s) :
    Timely s .expireOrchestrator := by
  refine ht.timely_of_missing fun hc t hr => ?_
  rw [Bool.eq_false_iff, ne_eq, ← ht.recorded.pace.missing_eq_nil_iff] at hc
  obtain ⟨p, hm⟩ := List.exists_mem_of_ne_nil _ hc
  exact ⟨p, hu t hr p hm⟩

theorem Resting.exists_expireOrchestrator (hrest : Resting s)
    (htimed : ∀ k, s.orchestrator.timed k = true) (hleft : s.orchestrator.left ≠ 0) :
    s.step .expireOrchestrator ≠ none := by
  have hstage := hrest.orchestrator hleft
  cases hc : s.barrier.isComplete with
  | true =>
    exact (Effect.complete hleft hrest.unlocked hc (.inr ⟨rfl, hstage, htimed _⟩)).not_none
  | false => exact (Effect.giveUp hleft (htimed _) hstage hrest.unlocked hc).not_none

/-- Time-outs that wait until no thread can go on are timely, and unhurried. -/
theorem timely_of_ready (hw : Wakeful s) (ht : Tracked n h s)
    (htimed : ∀ k, s.orchestrator.timed k = true) (hready : (machine ε).Ready s a) :
    Timely s a ∧ Unhurried s a := by
  cases a with
  | act | conduct | wake | wakeOrchestrator => exact ⟨trivial, trivial⟩
  | expireOrchestrator =>
    have hrest := hw.resting ht (fun p => hready (.act p) rfl) (hready .conduct rfl)
    have hu := hrest.unhurried hw ht
    exact ⟨hu.timely ht, hu⟩
  | expire p =>
    have hrest := hw.resting ht (fun p => hready (.act p) rfl) (hready .conduct rfl)
    have hleft : s.orchestrator.left = 0 := by
      by_contra hleft
      exact hrest.exists_expireOrchestrator htimed hleft (hready .expireOrchestrator rfl)
    refine ⟨?_, trivial⟩
    intro b _ hle t hr
    rw [phase_eq_of_left_eq_zero hr hleft]
    exact hle

/-- A run in which time-outs expire only when no thread can go on. -/
theorem runWhere_of_run {programs : List (List (Op ε))} {waits : Nat}
    (hr : (machine ε).Run (start programs waits fun _ => true) as t) :
    (hastyMachine ε).RunWhere (fun s a => Timely s a ∧ Unhurried s a)
      (start programs waits fun _ => true) as t := by
  let P (s : Threads ε) := ∃ h, Tracked programs.length h s ∧ Wakeful s ∧
    ∀ k, s.orchestrator.timed k = true
  have hstart : P (start programs waits fun _ => true) :=
    ⟨[], tracked_start .., wakeful_start .., fun _ => rfl⟩
  refine (hr.runWhere (P := P) hstart ?_).of_step_eq fun _ _ => rfl
  rintro s a t ⟨h, ht, hw, htimed⟩ hnext
  obtain ⟨es, he⟩ := effect_of_step hnext.2
  exact ⟨timely_of_ready hw ht htimed hnext.1, es ++ h, ht.step he, ht.wakeful_step hw he,
    he.timed_eq ▸ htimed⟩

/-- The run to the end that `settle` performs is of this kind. -/
theorem reaches_settle (s : Threads ε) : (machine ε).Reaches s s.settle := by
  apply Machine.reaches_drive
  · intro s a ha b
    rw [moves, List.mem_append, List.mem_map, List.mem_singleton] at ha
    rcases ha with ⟨p, -, rfl⟩ | rfl <;> cases b <;> rfl
  · intro s hmoves before a after hlist hbefore
    have hact (p : Nat) : s.act p = none := by
      by_cases hlt : p < s.threads.length
      · exact hmoves (.act p)
          (List.mem_append_left _ (List.mem_map_of_mem (List.mem_range.2 hlt)))
      · rw [act, List.getElem?_eq_none (Nat.le_of_not_lt hlt)]
        rfl
    have hconduct : s.conduct = none :=
      hmoves .conduct (List.mem_append_right _ List.mem_cons_self)
    intro b hb
    cases b with
    | act p => exact hact p
    | conduct => exact hconduct
    | wake | wakeOrchestrator | expire => cases a <;> cases hb
    | expireOrchestrator =>
      cases before with
      | nil =>
        obtain ⟨rfl, -⟩ := List.cons.inj hlist
        cases hb
      | cons c before =>
        obtain ⟨rfl, -⟩ := List.cons.inj hlist
        exact hbefore _ List.mem_cons_self

/-- Every state has a timely run to where all is quiet. -/
theorem exists_quiet (s : Threads ε) :
    ∃ as t, (hastyMachine ε).RunWhere Timely s as t ∧ Quiet t := by
  induction hk : s.work using Nat.strongRecOn generalizing s with
  | ind k ih =>
    by_cases hq : Quiet s
    · exact ⟨[], s, .nil s, hq⟩
    · obtain ⟨a, t, htimely, hstep, ha⟩ :
          ∃ a t, Timely s a ∧ s.step a = some t ∧ a.isWakeup = false := by
        simpa [Quiet] using hq
      obtain ⟨es, he⟩ := effect_of_step hstep
      have hlt := he.work_lt
      rw [ha] at hlt
      obtain ⟨as, u, hr, hu⟩ := ih t.work (hk ▸ hlt) t rfl
      exact ⟨a :: as, u, .cons htimely hstep hr, hu⟩

/-- Where all is quiet, no wait is left. -/
theorem Quiet.left_eq_zero (hq : Quiet s) (hw : Wakeful s) (ht : Tracked n h s)
    (htimed : ∀ k, s.orchestrator.timed k = true) :
    Resting s ∧ s.orchestrator.left = 0 := by
  have hnone (a : Label) (htimely : Timely s a) (ha : a.isWakeup = false) : s.step a = none := by
    rw [Option.eq_none_iff_forall_ne_some]
    intro t hstep
    rw [hq a t htimely hstep] at ha
    cases ha
  have hrest := hw.resting ht (fun p => hnone (.act p) trivial rfl) (hnone .conduct trivial rfl)
  refine ⟨hrest, by_contra fun hleft => hrest.exists_expireOrchestrator htimed hleft ?_⟩
  exact hnone .expireOrchestrator ((hrest.unhurried hw ht).timely ht) rfl

end Lockstep.Barrier.Threads
