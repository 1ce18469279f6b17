import Lockstep.Proofs.Barrier.Calls

/-!
# What a phase of a barrier guarantees

The three guarantees of a barrier, for every list of calls of its participants and of the
orchestrator, in any order:

* `errors_returned_with_their_phase`: an error handed to an exit after `k` syncs is returned by the
  wait that completes phase `k`, and by no other;
* `wait_completes_iff_all_arrived`: a wait completes the phase exactly if everyone has left or has
  arrived in it, and one that gives up names exactly those who have not;
* `participants_keep_in_step`: no participant is more than one sync ahead of the phase, and none is
  behind unless it has left, so a sync that returns has waited for everyone.
-/

set_option autoImplicit false

namespace Lockstep.Barrier.Session

open History

variable {ε : Type}

/-! ## Histories that go on -/

theorem history_append {cs ds : List (Call ε)} {as bs : List (Answer ε)}
    (hl : as.length = cs.length) :
    history (cs ++ ds) (as ++ bs) = history ds bs ++ history cs as := by
  induction cs generalizing as with
  | nil =>
    cases as with
    | nil => simp [history]
    | cons a as => cases hl
  | cons c cs ih =>
    cases as with
    | nil => cases hl
    | cons a as =>
      have hl : as.length = cs.length := by simpa using hl
      simp [history, ih hl]

theorem after_append (n : Nat) (cs ds : List (Call ε)) :
    after n (cs ++ ds) = ((after n cs).run ds).2 := by
  rw [after, run_append, after]

theorem past_append (n : Nat) (cs ds : List (Call ε)) :
    past n (cs ++ ds) = history ds ((after n cs).run ds).1 ++ past n cs := by
  rw [past, run_append, history_append (length_answers_run _ _), past, after]

/-- Moves made while a wait is blocked are calls before it. -/
theorem run_moves (s : Session ε) (ms : List (Move ε)) :
    (s.run (ms.map .move)).2 = (s.moves ms).2 ∧
      history (ms.map .move) (s.run (ms.map .move)).1 = movesEvents ms (s.moves ms).1 := by
  induction ms generalizing s with
  | nil => exact ⟨rfl, rfl⟩
  | cons m ms ih =>
    obtain ⟨h1, h2⟩ := ih (s.move m).2
    refine ⟨?_, ?_⟩
    · simpa [run, step, moves] using h1
    · simpa [run, step, moves, history, movesEvents, Call.events] using h2

theorem returns_movesEvents (ms : List (Move ε)) (as : List MoveAnswer) :
    (movesEvents ms as).returns = [] := by
  induction ms generalizing as with
  | nil => rfl
  | cons m ms ih =>
    cases as with
    | nil => rfl
    | cons a as =>
      rw [movesEvents, returns_append, ih, List.append_nil]
      cases m <;> cases a <;> rfl

/-! ## Errors -/

/-- What a wait returns takes its place after what the waits before it returned. -/
theorem getElem?_returns_of_wait {n : Nat} {before : List (Call ε)} (later : List (Call ε))
    {kind : WaitKind} {during : List (Move ε)} {answers : List MoveAnswer} {outcome : WaitAnswer ε}
    {s : Session ε} {errors : List ε}
    (hw : (after n before).wait kind during = (.waited answers outcome, s))
    (he : outcome.errors? = some errors) :
    (past n (before ++ .wait kind during :: later)).returns[(after n before).barrier.phase]? =
      some errors := by
  have hr := (tracked_run n before).recorded
  have hlen : (past n before).returns.length = (after n before).barrier.phase := by
    rw [hr.account.returns, List.length_map, List.length_range, hr.pace.phase]
  simp only [past_append, run, step, hw, history, Call.events, he, Option.toList_some,
    List.map_cons, List.map_nil, returns_append, returns, returns_movesEvents, List.nil_append,
    ← hlen]
  simp

/-- **An error is returned with the phase that its participant was working towards**: the errors
that a wait returns in phase `k` are those handed to an exit after `k` syncs, in the order of the
exits, whatever happens later. So they are those of phases that were completed; what the two buffers
hold are the errors of the current phase and of the next one, and there are no others. -/
theorem errors_returned_with_their_phase (n : Nat) (cs : List (Call ε)) :
    let h := past n cs
    let b := (after n cs).barrier
    (∀ before kind during later, cs = before ++ .wait kind during :: later →
      ∀ answers outcome s errors,
        (after n before).wait kind during = (.waited answers outcome, s) →
        outcome.errors? = some errors → errors = h.errors (after n before).barrier.phase) ∧
    h.returns = (List.range b.phase).map (fun k => h.errors k) ∧
    b.errors = h.errors b.phase ∧ b.nextErrors = h.errors (b.phase + 1) ∧
    (∀ k, b.phase + 1 < k → h.errors k = []) ∧
    (∀ k p e, (p, e) ∈ h.reports k ↔ .exited p (some e) ∈ h ∧ h.syncs p = k) ∧
    ∀ k, ((h.reports k).map (·.1)).Nodup := by
  intro h b
  have hr : Recorded n h b := (tracked_run n cs).recorded
  have hp := hr.pace
  have ha := hr.account
  have hreturns : h.returns = (List.range b.phase).map fun k => h.errors k := by
    rw [ha.returns, hp.phase]
  refine ⟨?_, hreturns, ?_, ?_, ?_, ha.mem_reports, ha.nodup⟩
  · rintro before kind during later rfl answers outcome s errors hw he
    have hget := getElem?_returns_of_wait later hw he
    change h.returns[_]? = _ at hget
    rw [hreturns, List.getElem?_map, Option.map_eq_some_iff] at hget
    obtain ⟨k, hk, rfl⟩ := hget
    obtain ⟨hlt, rfl⟩ := List.getElem?_eq_some_iff.1 hk
    simp
  · rw [ha.errors, hp.phase]
  · rw [ha.nextErrors, hp.phase]
  · intro k hk
    rw [hp.phase] at hk
    exact ha.errors_eq_nil hp hk

/-! ## Completion -/

/-- **A wait completes the phase exactly if everyone has arrived**, that is, has left or has had a
sync accepted in this phase; `h` is what happened up to the moment the wait decides, after the moves
made while it was blocked. One that gives up leaves the barrier as it is and names those who have
not arrived, in ascending order; a wait without a time-out stays blocked. Who has left is never
among the missing again. -/
theorem wait_completes_iff_all_arrived (n : Nat) (cs : List (Call ε)) (kind : WaitKind)
    (during : List (Move ε)) :
    let found := after n (cs ++ during.map .move)
    let h := past n (cs ++ during.map .move)
    ∃ answers outcome s, (after n cs).wait kind during = (.waited answers outcome, s) ∧
      (outcome.errors?.isSome ↔ ∀ p < n, h.Arrived p) ∧
      (outcome.errors?.isSome → s.barrier.phase = h.phase + 1) ∧
      (¬ outcome.errors?.isSome → s = found ∧
        (kind ≠ .timed → outcome = .wouldBlock) ∧
        (kind = .timed → ∃ missing, outcome = .timedOut ⟨h.phase, missing⟩ ∧ missing ≠ [] ∧
          missing.Pairwise (· < ·) ∧ (∀ p, p ∈ missing ↔ p < n ∧ ¬ h.Arrived p) ∧
          missing.length = found.barrier.total - found.barrier.arrived)) ∧
      ∀ p, h.Exited p → ∀ more,
        p ∉ (after n (cs ++ during.map .move ++ more)).barrier.missing := by
  intro found h
  have hfound : found = ((after n cs).moves during).2 := by
    rw [← (run_moves _ during).1, ← after_append]
  have hp : Pace n h found.barrier := (tracked_run n _).recorded.pace
  have hcomplete : found.barrier.isComplete = true ↔ ∀ p < n, h.Arrived p := hp.isComplete_iff
  have hleft (p : Nat) (hx : h.Exited p) (more : List (Call ε)) :
      p ∉ (after n (cs ++ during.map .move ++ more)).barrier.missing := by
    have hmore := (tracked_run n (cs ++ during.map .move ++ more)).recorded.pace
    rw [hmore.mem_missing_iff, hmore.arrived_iff, past_append, exited_append]
    exact fun hm => hm.2 (.inl (.inr hx))
  by_cases hc : found.barrier.isComplete = true
  · obtain ⟨outcome, hw, he⟩ := wait_of_complete kind (hfound ▸ hc)
    refine ⟨_, outcome, _, hw, ?_, ?_, ?_, hleft⟩
    · simpa [he] using hcomplete.1 hc
    · intro _
      show ((after n cs).moves during).2.barrier.phase + 1 = h.phase + 1
      rw [← hfound, hp.phase]
    · intro hno
      simp [he] at hno
  · have hw := wait_of_not_complete kind (hfound ▸ hc)
    have he : (kind.refusal ((after n cs).moves during).2.barrier).errors? = none := by
      cases kind <;> rfl
    rw [← hfound] at hw he
    refine ⟨_, _, _, hw, ?_, fun hsome => ?_, fun _ => ⟨rfl, fun hk => ?_, fun hk => ?_⟩, hleft⟩
    · simpa [he] using mt hcomplete.2 hc
    · simp [he] at hsome
    · cases kind <;> simp_all [WaitKind.refusal]
    · subst hk
      have hmissing (p : Nat) : p ∈ found.barrier.missing ↔ p < n ∧ ¬ h.Arrived p :=
        hp.mem_missing_iff
      refine ⟨found.barrier.missing, ?_, fun hnil => hc (hcomplete.2 ?_),
        pairwise_missing _, hmissing, ?_⟩
      · rw [WaitKind.refusal, timeout, hp.phase]
      · intro p hlt
        have hno : p ∉ found.barrier.missing := hnil ▸ List.not_mem_nil
        rw [hmissing, not_and, Classical.not_not] at hno
        exact hno hlt
      · rw [hp.length_missing, hp.total]

/-! ## Lockstep -/

/-- A blocked call returns in a later phase than the one in which it arrived. -/
theorem lt_phase_of_return {s s' : Session ε} {p k : Nat} {timed : Bool} {c : Call ε}
    (hb : s.handles[p]? = some (.blocked timed k)) (hc : c = .join p ∨ c = .giveUp p)
    (hs : s.step c = (.moved .done, s')) :
    k < s.barrier.phase ∧ s' = s.update p .free s.barrier := by
  by_cases hle : s.barrier.phase ≤ k
  · rcases hc with rfl | rfl
    · simp [step, join, hb, hle] at hs
    · cases timed <;> simp [step, giveUp, hb, hle] at hs
  · refine ⟨Nat.lt_of_not_le hle, ?_⟩
    rcases hc with rfl | rfl
    · simpa [step, join, hb, hle, eq_comm] using hs
    · cases timed
      · simp [step, giveUp, hb] at hs
      · simpa [step, giveUp, hb, hle, eq_comm] using hs

/-- A call that runs out of time does so in the phase in which it arrived, or before. -/
theorem phase_le_of_timedOut {s s' : Session ε} {p j k : Nat} {timed : Bool}
    (hb : s.handles[p]? = some (.blocked timed k))
    (hs : s.step (.giveUp p) = (.moved (.refused (.timedOut j)), s')) :
    s.barrier.phase ≤ k ∧ j = k := by
  by_cases hle : s.barrier.phase ≤ k
  · cases timed
    · simp [step, giveUp, hb] at hs
    · have hj : k = j ∧ s.update p .free s.barrier = s' := by
        simpa [step, giveUp, hb, hle] using hs
      exact ⟨hle, hj.1.symm⟩
  · cases timed <;> simp [step, giveUp, hb, hle] at hs

section
variable {n p k : Nat} {h : History ε} {s : Session ε} (ht : Tracked n h s)
include ht

theorem Tracked.phase_le (hlt : p < n) (hx : ¬ h.Exited p) : s.barrier.phase ≤ h.syncs p := by
  have hp := ht.recorded.pace
  rw [hp.phase]
  exact hp.phase_le p hlt hx

/-- A participant that has made one sync for each completed phase and does nothing keeps the barrier
in its phase. -/
theorem Tracked.phase_run (hlt : p < n) (hx : ¬ h.Exited p) (hk : h.syncs p = s.barrier.phase)
    (ds : List (Call ε)) (hsync : .synced p ∉ history ds (s.run ds).1)
    (hexit : ¬ (history ds (s.run ds).1).Exited p) :
    (s.run ds).2.barrier.phase = s.barrier.phase := by
  have hrun := ht.run ds
  have hle : (s.run ds).2.barrier.phase ≤ h.syncs p := by
    have := hrun.phase_le hlt (by rw [exited_append, not_or]; exact ⟨hexit, hx⟩)
    rwa [syncs_append, syncs_eq_zero hsync, Nat.zero_add] at this
  have hge : s.barrier.phase ≤ (s.run ds).2.barrier.phase := by
    rw [hrun.recorded.pace.phase, ht.recorded.pace.phase, phase_append]
    exact Nat.le_add_left _ _
  omega

end

/-- **The participants keep in step with the phases.** The `j`-th sync of a participant was accepted
in phase `j`, and a participant that has not left has made one sync for each completed phase, or one
more. So when a call returns that arrived in phase `k`, everyone else has made `k + 1` syncs or has
left, and the phase stays `k + 1` until the caller goes on; a call runs out of time only in the
phase in which it arrived. And a handle that is dropped after `m` syncs (in whatever follows) holds
the barrier in phase `m`. -/
theorem participants_keep_in_step (n : Nat) (cs : List (Call ε)) :
    let s := after n cs
    let h := past n cs
    (∀ p, h.syncPhases p = List.range (h.syncs p)) ∧
    (∀ p < n, ¬ h.Exited p →
      h.syncs p = s.barrier.phase ∨ h.syncs p = s.barrier.phase + 1) ∧
    (∀ p timed k, s.handles[p]? = some (.blocked timed k) →
      (h.syncPhases p).getLast? = some k ∧
      (∀ c s', c = .join p ∨ c = .giveUp p → s.step c = (.moved .done, s') →
        (∀ q < n, q ≠ p → h.Exited q ∨ k + 1 ≤ h.syncs q) ∧
        ∀ ds, let more := history ds (s'.run ds).1
          .synced p ∉ more → ¬ more.Exited p → (s'.run ds).2.barrier.phase = k + 1) ∧
      ∀ j s', s.step (.giveUp p) = (.moved (.refused (.timedOut j)), s') →
        j = k ∧ s.barrier.phase = k) ∧
    ∀ p later earlier, h = later ++ .dropped p :: earlier →
      s.barrier.phase ≤ History.syncs p earlier := by
  intro s h
  have ht : Tracked n h s := tracked_run n cs
  have hp := ht.recorded.pace
  refine ⟨hp.syncPhases, ?_, ?_, ?_⟩
  · intro p hlt hx
    have hge := ht.phase_le hlt hx
    have hle := hp.syncs_le p
    rw [← hp.phase] at hle
    omega
  · intro p timed k hb
    have hlt := ht.lt hb
    have hx := (ht.live p _ hb nofun).1
    have hsyncs := ht.blocked p timed k hb
    have hge := ht.phase_le hlt hx
    refine ⟨?_, ?_, ?_⟩
    · rw [hp.syncPhases, hsyncs, List.getLast?_range]
      simp
    · intro c s' hc hs
      obtain ⟨hpast, rfl⟩ := lt_phase_of_return hb hc hs
      -- the caller itself is one sync ahead of the phase it arrived in, and no more
      have hphase : s.barrier.phase = k + 1 := by omega
      refine ⟨?_, ?_⟩
      · intro q hq _
        by_cases hxq : h.Exited q
        · exact .inl hxq
        · exact .inr (hphase ▸ ht.phase_le hq hxq)
      · intro ds more hsync hexit
        have := (ht.unblock hb).phase_run hlt hx (hsyncs.trans hphase.symm) ds hsync hexit
        exact this.trans hphase
    · intro j s' hs
      obtain ⟨hle, rfl⟩ := phase_le_of_timedOut hb hs
      have hle' := hp.syncs_le p
      rw [← hp.phase] at hle'
      exact ⟨rfl, by omega⟩
  · intro p later earlier hd
    obtain ⟨hx, hsyncs⟩ := ht.dropped p later earlier hd
    have hlt : p < n := by
      have := ht.used p (.inr (hd ▸ List.mem_append_right _ List.mem_cons_self))
      have := ht.issued
      have := ht.issued_le
      omega
    exact hsyncs ▸ ht.phase_le hlt hx

end Lockstep.Barrier.Session
