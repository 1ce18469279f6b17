import Lockstep.Proofs.Barrier.Phases

/-!
# Failed operations leave no trace

`traces cs as` is what is left of a history of calls and their answers when all is deleted that has not
changed the barrier: waits that gave up, refused syncs, dropped handles, queries, and the returns of
blocking calls. A blocking sync that was accepted is replaced by a plain one. What is left is a history
of its own, with these answers, that leads to the same barrier. `Remains s s'` relates the sessions of
the two: the handles that can be used, or will be when their calls return, are free in `s'`. `Lasting`
says which calls can be left; that no other is deleted is seen in the events, all of which are left but
the drops of handles.
-/

set_option autoImplicit false

namespace Lockstep.Barrier

variable {ε : Type}

/-! ## What is left of a history -/

/-- A move that was made, unless a handle was dropped. -/
def Move.trace : Move ε → MoveAnswer → List (Move ε × MoveAnswer)
  | .sync p, .done => [(.sync p, .done)]
  | .exit p error, .done => [(.exit p error, .done)]
  | _, _ => []

def movesTrace : List (Move ε) → List MoveAnswer → List (Move ε × MoveAnswer)
  | m :: ms, a :: as => m.trace a ++ movesTrace ms as
  | _, _ => []

/-- A move as a call of its own. -/
def Move.asCall (m : Move ε × MoveAnswer) : Call ε × Answer ε := (.move m.1, .moved m.2)

/-- What the call leaves. A wait that gave up leaves what was done during it. -/
def Call.trace : Call ε → Answer ε → List (Call ε × Answer ε)
  | .issue, a => [(.issue, a)]
  | .issueAll, a => [(.issueAll, a)]
  | .move m, .moved a => (m.trace a).map Move.asCall
  | .syncWait p _, .blocked => [(.move (.sync p), .moved .done)]
  | .wait _ during, .waited answers (.timedOut _) => (movesTrace during answers).map Move.asCall
  | .wait kind during, .waited answers outcome =>
    [(.wait kind ((movesTrace during answers).map (·.1)),
      .waited ((movesTrace during answers).map (·.2)) outcome)]
  | _, _ => []

def traces : List (Call ε) → List (Answer ε) → List (Call ε × Answer ε)
  | c :: cs, a :: as => c.trace a ++ traces cs as
  | _, _ => []

theorem Call.trace_wait {kind : WaitKind} {during : List (Move ε)} {answers : List MoveAnswer}
    {outcome : WaitAnswer ε} (hne : ∀ e, outcome ≠ .timedOut e) :
    Call.trace (.wait kind during) (.waited answers outcome) =
      [(.wait kind ((movesTrace during answers).map (·.1)),
        .waited ((movesTrace during answers).map (·.2)) outcome)] := by
  cases outcome with
  | timedOut e => exact absurd rfl (hne e)
  | completed | clean | failed | wouldBlock => rfl

theorem WaitKind.report_ne_timedOut (kind : WaitKind) (phase : Nat) (errors : List ε)
    (e : WaitTimeout) : kind.report phase errors ≠ .timedOut e := by
  cases kind with
  | plain | timed => nofun
  | checked => cases errors <;> nofun

/-! ## What is not left, and what is -/

def Move.isDrop : Move ε → Bool
  | .drop _ => true
  | _ => false

/-- The call has changed the barrier, or waits for it to change. -/
inductive Lasting : Call ε → Answer ε → Prop
  | issue (a : Answer ε) : Lasting .issue a
  | issueAll (a : Answer ε) : Lasting .issueAll a
  | move {m : Move ε} : m.isDrop = false → Lasting (.move m) (.moved .done)
  | wait {kind during answers outcome} : (∀ m ∈ during, m.isDrop = false) →
      (∀ a ∈ answers, a = .done) → (∀ e, outcome ≠ .timedOut e) →
      Lasting (.wait kind during) (.waited answers outcome)

/-- The barrier was changed. -/
def Event.isLasting : Event ε → Bool
  | .dropped _ => false
  | .synced _ | .exited _ _ | .completed _ => true

theorem lasting_of_mem_trace {m : Move ε} {a : MoveAnswer} {x : Move ε × MoveAnswer}
    (hx : x ∈ m.trace a) : x.1.isDrop = false ∧ x.2 = .done := by
  cases m <;> cases a <;> simp_all [Move.trace, Move.isDrop]

theorem lasting_of_mem_movesTrace {ms : List (Move ε)} {as : List MoveAnswer}
    {x : Move ε × MoveAnswer} (hx : x ∈ movesTrace ms as) : x.1.isDrop = false ∧ x.2 = .done := by
  induction ms generalizing as with
  | nil => cases hx
  | cons m ms ih =>
    cases as with
    | nil => cases hx
    | cons a as => exact (List.mem_append.1 hx).elim lasting_of_mem_trace ih

theorem lasting_asCall {ms : List (Move ε × MoveAnswer)}
    (hms : ∀ m ∈ ms, m.1.isDrop = false ∧ m.2 = .done) {x : Call ε × Answer ε}
    (hx : x ∈ ms.map Move.asCall) : Lasting x.1 x.2 := by
  obtain ⟨⟨m, a⟩, hm, rfl⟩ := List.mem_map.1 hx
  obtain ⟨hdrop, rfl⟩ : m.isDrop = false ∧ a = .done := hms _ hm
  exact .move hdrop

theorem lasting_of_mem_call {c : Call ε} {a : Answer ε} {x : Call ε × Answer ε}
    (hx : x ∈ c.trace a) : Lasting x.1 x.2 := by
  cases c with
  | issue =>
    obtain rfl := List.mem_singleton.1 hx
    exact .issue a
  | issueAll =>
    obtain rfl := List.mem_singleton.1 hx
    exact .issueAll a
  | move m =>
    cases a with
    | moved answer => exact lasting_asCall (fun _ hm => lasting_of_mem_trace hm) hx
    | _ => cases hx
  | syncWait p timed =>
    cases a with
    | blocked =>
      obtain rfl := List.mem_singleton.1 hx
      exact .move rfl
    | _ => cases hx
  | join | giveUp | inspect => cases a <;> cases hx
  | wait kind during =>
    cases a with
    | waited answers outcome =>
      by_cases hlate : ∃ e, outcome = .timedOut e
      · obtain ⟨e, rfl⟩ := hlate
        exact lasting_asCall (fun _ hm => lasting_of_mem_movesTrace hm) hx
      · have hne : ∀ e, outcome ≠ .timedOut e := not_exists.1 hlate
        rw [Call.trace_wait hne] at hx
        obtain rfl := List.mem_singleton.1 hx
        refine .wait (fun m hm => ?_) (fun answer hanswer => ?_) hne
        · obtain ⟨x, hmem, rfl⟩ := List.mem_map.1 hm
          exact (lasting_of_mem_movesTrace hmem).1
        · obtain ⟨x, hmem, rfl⟩ := List.mem_map.1 hanswer
          exact (lasting_of_mem_movesTrace hmem).2
    | _ => cases hx

theorem lasting_of_mem_traces {cs : List (Call ε)} {as : List (Answer ε)} {x : Call ε × Answer ε}
    (hx : x ∈ traces cs as) : Lasting x.1 x.2 := by
  induction cs generalizing as with
  | nil => cases hx
  | cons c cs ih =>
    cases as with
    | nil => cases hx
    | cons a as => exact (List.mem_append.1 hx).elim lasting_of_mem_call ih

/-! ## What happened -/

theorem movesEvents_movesTrace (ms : List (Move ε)) (as : List MoveAnswer) :
    movesEvents ((movesTrace ms as).map (·.1)) ((movesTrace ms as).map (·.2)) =
      (movesEvents ms as).filter Event.isLasting := by
  induction ms generalizing as with
  | nil => rfl
  | cons m ms ih =>
    cases as with
    | nil => rfl
    | cons a as =>
      rw [movesEvents, List.filter_append, ← ih]
      cases m <;> cases a <;>
        simp [movesTrace, Move.trace, movesEvents, Move.events, Event.isLasting, List.filter_cons]

theorem history_asCall (ms : List (Move ε × MoveAnswer)) :
    history ((ms.map Move.asCall).map (·.1)) ((ms.map Move.asCall).map (·.2)) =
      movesEvents (ms.map (·.1)) (ms.map (·.2)) := by
  induction ms with
  | nil => rfl
  | cons m ms ih => exact congrArg (· ++ m.1.events m.2) ih

theorem history_trace (c : Call ε) (a : Answer ε) :
    history ((c.trace a).map (·.1)) ((c.trace a).map (·.2)) =
      (c.events a).filter Event.isLasting := by
  cases c with
  | issue | issueAll => cases a <;> rfl
  | move m =>
    cases a with
    | moved answer =>
      rw [Call.trace, history_asCall]
      simpa [movesTrace, movesEvents, Call.events] using movesEvents_movesTrace [m] [answer]
    | _ => rfl
  | syncWait p timed => cases a <;> rfl
  | join | giveUp | inspect => cases a <;> rfl
  | wait kind during =>
    cases a with
    | waited answers outcome =>
      rw [Call.events, List.filter_append, ← movesEvents_movesTrace]
      by_cases hlate : ∃ e, outcome = .timedOut e
      · obtain ⟨e, rfl⟩ := hlate
        exact history_asCall _
      · rw [Call.trace_wait (not_exists.1 hlate)]
        cases outcome <;> rfl
    | _ => rfl

theorem history_traces (cs : List (Call ε)) (as : List (Answer ε)) :
    history ((traces cs as).map (·.1)) ((traces cs as).map (·.2)) =
      (history cs as).filter Event.isLasting := by
  induction cs generalizing as with
  | nil => rfl
  | cons c cs ih =>
    cases as with
    | nil => rfl
    | cons a as =>
      rw [traces, List.map_append, List.map_append, Session.history_append (by simp), ih,
        history_trace, history, List.filter_append]

namespace Session

/-! ## Two sessions of one barrier -/

/-- The session `s'` of the same barrier, in which the handles are free that are free or in use in
`s`. -/
structure Remains (s s' : Session ε) : Prop where
  barrier : s'.barrier = s.barrier
  size : s'.handles.length = s.handles.length
  free : ∀ (p : Nat) (handle : Handle), s.handles[p]? = some handle → handle ≠ .gone →
    s'.handles[p]? = some .free

variable {n : Nat} {s s' t : Session ε} {b : Barrier ε} {p : Nat} {handle : Handle}

section
variable (hs : Remains s s')
include hs

theorem Remains.isFree (hp : s.isFree p = true) : s'.isFree p = true :=
  isFree_iff.2 (hs.free p _ (isFree_iff.1 hp) nofun)

/-- Something is done with the handle `p`, here and there. -/
theorem Remains.touch (hb : t.barrier = b) (hsize : t.handles.length = s'.handles.length)
    (hother : ∀ q ≠ p, t.handles[q]? = s'.handles[q]?)
    (hfree : handle ≠ .gone → t.handles[p]? = some .free) : Remains (s.update p handle b) t where
  barrier := hb
  size := by rw [update, List.length_set, hsize, hs.size]
  free q handle' hq hne := by
    rcases handles_update hq with ⟨rfl, rfl⟩ | ⟨hqp, hq⟩
    · exact hfree hne
    · rw [hother q hqp]
      exact hs.free q handle' hq hne

/-- A participant arrives; where its call is blocked the handle is free there. -/
theorem Remains.arrive (hp : s.handles[p]? = some .free) (handle : Handle) (b : Barrier ε) :
    Remains (s.update p handle b) (s'.update p .free b) := by
  have hlt : p < s'.handles.length := (List.getElem?_eq_some_iff.1 (hs.free p _ hp nofun)).1
  exact hs.touch rfl List.length_set (fun _ hq => List.getElem?_set_ne (Ne.symm hq))
    fun _ => List.getElem?_set_self hlt

theorem Remains.leave (p : Nat) (b : Barrier ε) :
    Remains (s.update p .gone b) (s'.update p .gone b) :=
  hs.touch rfl List.length_set (fun _ hq => List.getElem?_set_ne (Ne.symm hq))
    fun hne => absurd rfl hne

/-- What changes the handle alone is not done there. -/
theorem Remains.skip (hp : s'.handles[p]? = some .free) (handle : Handle) :
    Remains (s.update p handle s.barrier) s' :=
  hs.touch hs.barrier rfl (fun _ _ => rfl) fun _ => hp

theorem Remains.issue (k : Nat) (b : Barrier ε) :
    Remains { barrier := b, handles := s.handles ++ List.replicate k .free }
      { barrier := b, handles := s'.handles ++ List.replicate k .free } where
  barrier := rfl
  size := by rw [List.length_append, List.length_append, hs.size]
  free q handle hq hne := by
    by_cases hlt : q < s.handles.length
    · rw [List.getElem?_append_left hlt] at hq
      rw [List.getElem?_append_left (hs.size ▸ hlt)]
      exact hs.free q handle hq hne
    · rw [List.getElem?_append_right (Nat.le_of_not_lt hlt), List.getElem?_replicate] at hq
      rw [List.getElem?_append_right (hs.size ▸ Nat.le_of_not_lt hlt), hs.size,
        List.getElem?_replicate]
      split at hq
      · rename_i hk
        rw [if_pos hk]
      · cases hq

/-! ## Moves -/

theorem Remains.move (m : Move ε) :
    ∃ t, s'.moves ((m.trace (s.move m).1).map (·.1)) = ((m.trace (s.move m).1).map (·.2), t) ∧
      Remains (s.move m).2 t := by
  have hskip : ∃ t, s'.moves [] = ([], t) ∧ Remains s t := ⟨s', rfl, hs⟩
  cases m with
  | sync p =>
    by_cases hf : s.isFree p = true
    · cases hsync : s.barrier.sync p with
      | none => simpa [Session.move, hf, hsync, Move.trace] using hskip
      | some r =>
        cases r with
        | error e => simpa [Session.move, hf, hsync, Move.trace] using hskip
        | ok b =>
          have ht := hs.arrive (isFree_iff.1 hf) .free b
          simpa [Session.move, moves, hf, hs.isFree hf, hs.barrier, hsync, Move.trace] using ht
    · simpa [Session.move, hf, Move.trace] using hskip
  | exit p error =>
    by_cases hf : s.isFree p = true
    · cases hexit : s.barrier.exit p error with
      | none => simpa [Session.move, hf, hexit, Move.trace] using hskip
      | some b =>
        have ht := hs.leave p b
        simpa [Session.move, moves, hf, hs.isFree hf, hs.barrier, hexit, Move.trace] using ht
    · simpa [Session.move, hf, Move.trace] using hskip
  | drop p =>
    by_cases hf : s.isFree p = true
    · have ht := hs.skip (isFree_iff.1 (hs.isFree hf)) .gone
      simpa [Session.move, moves, hf, Move.trace] using ht
    · simpa [Session.move, hf, Move.trace] using hskip

end

theorem moves_append (s : Session ε) (ms ms' : List (Move ε)) :
    s.moves (ms ++ ms') = ((s.moves ms).1 ++ ((s.moves ms).2.moves ms').1,
      ((s.moves ms).2.moves ms').2) := by
  induction ms generalizing s with
  | nil => rfl
  | cons m ms ih => simp [moves, ih]

theorem Remains.moves (hs : Remains s s') (ms : List (Move ε)) :
    ∃ t, s'.moves ((movesTrace ms (s.moves ms).1).map (·.1)) =
        ((movesTrace ms (s.moves ms).1).map (·.2), t) ∧ Remains (s.moves ms).2 t := by
  induction ms generalizing s s' with
  | nil => exact ⟨s', rfl, hs⟩
  | cons m ms ih =>
    obtain ⟨t, ht, hrest⟩ := hs.move m
    obtain ⟨u, hu, hremains⟩ := ih hrest
    have htrace : movesTrace (m :: ms) (s.moves (m :: ms)).1 =
        m.trace (s.move m).1 ++ movesTrace ms ((s.move m).2.moves ms).1 := rfl
    refine ⟨u, ?_, hremains⟩
    rw [htrace, List.map_append, List.map_append, moves_append, ht, hu]

/-! ## Calls -/

/-- The calls have these answers, and lead from `s` to `t`. -/
def Replays (s : Session ε) (left : List (Call ε × Answer ε)) (t : Session ε) : Prop :=
  s.run (left.map (·.1)) = (left.map (·.2), t)

theorem Replays.append {u : Session ε} {left more : List (Call ε × Answer ε)}
    (hs : Replays s left t) (ht : Replays t more u) : Replays s (left ++ more) u := by
  unfold Replays at hs ht ⊢
  rw [List.map_append, List.map_append, run_append, hs, ht]

theorem replays_singleton {c : Call ε} {a : Answer ε} (hs : s.step c = (a, t)) :
    Replays s [(c, a)] t := by
  simp [Replays, run, hs]

/-- Moves are calls of their own. -/
theorem replays_asCall {ms : List (Move ε × MoveAnswer)}
    (hs : s.moves (ms.map (·.1)) = (ms.map (·.2), t)) : Replays s (ms.map Move.asCall) t := by
  induction ms generalizing s with
  | nil =>
    cases hs
    rfl
  | cons m ms ih =>
    simp only [List.map_cons, Session.moves, Prod.mk.injEq, List.cons.injEq] at hs
    obtain ⟨⟨hanswer, hanswers⟩, rfl⟩ := hs
    have hstep : s.step (Move.asCall m).1 = ((Move.asCall m).2, (s.move m.1).2) := by
      simp only [step, Move.asCall, hanswer]
    exact (replays_singleton hstep).append (ih (Prod.ext hanswers rfl))

section
variable (hs : Remains s s')
include hs

theorem Remains.syncWait (p : Nat) (timed : Bool) :
    ∃ t, Replays s' (Call.trace (.syncWait p timed) (s.syncWait p timed).1) t ∧
      Remains (s.syncWait p timed).2 t := by
  have hskip : ∃ t, Replays s' [] t ∧ Remains s t := ⟨s', rfl, hs⟩
  by_cases hf : s.isFree p = true
  · cases hsync : s.barrier.sync p with
    | none => simpa [Session.syncWait, hf, hsync, Call.trace] using hskip
    | some r =>
      cases r with
      | error e => simpa [Session.syncWait, hf, hsync, Call.trace] using hskip
      | ok b =>
        have ht := hs.arrive (isFree_iff.1 hf) (.blocked timed b.phase) b
        have hstep : s'.step (.move (.sync p)) = (.moved .done, s'.update p .free b) := by
          simp [step, Session.move, hs.isFree hf, hs.barrier, hsync]
        have hreplays := replays_singleton hstep
        simpa [Session.syncWait, hf, hsync, Call.trace] using ⟨_, hreplays, ht⟩
  · simpa [Session.syncWait, hf, Call.trace] using hskip

theorem Remains.join (p : Nat) : Remains (s.join p).2 s' := by
  unfold Session.join
  split
  · rename_i hp
    split
    · exact hs
    · exact hs.skip (hs.free p _ hp nofun) .free
  · exact hs

theorem Remains.giveUp (p : Nat) : Remains (s.giveUp p).2 s' := by
  unfold Session.giveUp
  split
  · rename_i hp
    split <;> exact hs.skip (hs.free p _ hp nofun) .free
  · exact hs
  · exact hs

theorem Remains.wait (kind : WaitKind) (during : List (Move ε)) :
    ∃ t, Replays s' (Call.trace (.wait kind during) (s.wait kind during).1) t ∧
      Remains (s.wait kind during).2 t := by
  obtain ⟨t, ht, hremains⟩ := hs.moves during
  -- the wait that is left finds the barrier that this one found
  have hfound : (s'.moves ((movesTrace during (s.moves during).1).map (·.1))).2.barrier =
      (s.moves during).2.barrier := by
    rw [ht]
    exact hremains.barrier
  by_cases hc : (s.moves during).2.barrier.isComplete = true
  · have hw := wait_eq_of_complete kind (hfound ▸ hc)
    rw [wait_eq_of_complete kind hc, Call.trace_wait (kind.report_ne_timedOut _ _)]
    rw [ht, hs.barrier, hremains.barrier] at hw
    refine ⟨_, replays_singleton hw, ?_⟩
    exact ⟨rfl, hremains.size, hremains.free⟩
  · have hw := wait_of_not_complete kind (hfound ▸ hc)
    rw [wait_of_not_complete kind hc]
    rw [ht, hremains.barrier] at hw
    refine ⟨t, ?_, hremains⟩
    cases kind with
    | timed => exact replays_asCall ht
    | plain | checked => exact replays_singleton hw

/-- What is left of a call goes as it went. -/
theorem Remains.step (c : Call ε) :
    ∃ t, Replays s' (c.trace (s.step c).1) t ∧ Remains (s.step c).2 t := by
  cases c with
  | issue =>
    cases hissue : s.barrier.issue with
    | none =>
      have hstep : s'.step .issue = (.issued none, s') := by
        simp [Session.step, hs.barrier, hissue]
      simpa [Session.step, hissue, Call.trace] using ⟨s', replays_singleton hstep, hs⟩
    | some found =>
      obtain ⟨p, b⟩ := found
      have hstep : s'.step .issue =
          (.issued (some p), { barrier := b, handles := s'.handles ++ [.free] }) := by
        simp [Session.step, hs.barrier, hissue]
      simpa [Session.step, hissue, Call.trace] using ⟨_, replays_singleton hstep, hs.issue 1 b⟩
  | issueAll =>
    have hstep : s'.step .issueAll = (.issuedAll s.barrier.issueAll.1,
        { barrier := s.barrier.issueAll.2
          handles := s'.handles ++ s.barrier.issueAll.1.map fun _ => .free }) := by
      simp only [Session.step, hs.barrier]
    refine ⟨_, replays_singleton hstep, ?_⟩
    simp only [Session.step, List.map_const']
    exact hs.issue _ _
  | move m =>
    obtain ⟨t, ht, hremains⟩ := hs.move m
    exact ⟨t, replays_asCall ht, hremains⟩
  | syncWait p timed => exact hs.syncWait p timed
  | join p => exact ⟨s', rfl, hs.join p⟩
  | giveUp p => exact ⟨s', rfl, hs.giveUp p⟩
  | wait kind during => exact hs.wait kind during
  | inspect => exact ⟨s', rfl, hs⟩

theorem Remains.run (cs : List (Call ε)) :
    ∃ t, Replays s' (traces cs (s.run cs).1) t ∧ Remains (s.run cs).2 t := by
  induction cs generalizing s s' with
  | nil => exact ⟨s', rfl, hs⟩
  | cons c cs ih =>
    obtain ⟨t, ht, hrest⟩ := hs.step c
    obtain ⟨u, hu, hremains⟩ := ih hrest
    exact ⟨u, ht.append hu, hremains⟩

end

/-! ## Refused syncs -/

section
variable {h : History ε} {e : SyncError}

theorem sync_refused_iff (hp : Pace n h b) (hlt : p < n) (hx : ¬ h.Exited p) :
    b.sync p = some (.error e) ↔ h.Arrived p ∧ e = .alreadyArrived h.phase := by
  rw [sync_eq_error_iff, hp.active p hlt hx, hp.phase, hp.arrived_iff, ← hp.getLast?_eq_iff]
  simp [hx]

/-- Each kind of sync is refused in the same way, and changes nothing then. -/
theorem step_refused_iff {c : Call ε} (hf : s.isFree p = true)
    (hc : c = .move (.sync p) ∨ ∃ timed, c = .syncWait p timed) :
    s.step c = (.moved (.refused e), t) ↔ s.barrier.sync p = some (.error e) ∧ t = s := by
  rcases hc with rfl | ⟨timed, rfl⟩
  · cases hsync : s.barrier.sync p with
    | none => simp [Session.step, Session.move, hf, hsync]
    | some r => cases r <;> simp [Session.step, Session.move, hf, hsync, eq_comm]
  · cases hsync : s.barrier.sync p with
    | none => simp [Session.step, Session.syncWait, hf, hsync]
    | some r => cases r <;> simp [Session.step, Session.syncWait, hf, hsync, eq_comm]

end

/-- **Failed operations leave no trace.** What is left of a history without them has the same answers
and leads to the same barrier: nothing that failed is left, and all that happened still happens in its
order, except that no handle is dropped. A sync of a participant that has not left is refused exactly if
it has arrived in the current phase, which the refusal names; this is so for each kind of sync. -/
theorem failures_leave_no_trace (n : Nat) (cs : List (Call ε)) :
    let h := past n cs
    let s := after n cs
    let left := traces cs ((fresh n).run cs).1
    (∃ t, (fresh n).run (left.map (·.1)) = (left.map (·.2), t) ∧ t.barrier = s.barrier) ∧
    (∀ x ∈ left, Lasting x.1 x.2) ∧
    history (left.map (·.1)) (left.map (·.2)) = h.filter Event.isLasting ∧
    (∀ p < n, ¬ h.Exited p → ∀ e, s.barrier.sync p = some (.error e) ↔
      h.Arrived p ∧ e = .alreadyArrived h.phase) ∧
    ∀ p c, s.isFree p = true → (c = .move (.sync p) ∨ ∃ timed, c = .syncWait p timed) →
      ∀ e t, s.step c = (.moved (.refused e), t) ↔
        h.Arrived p ∧ e = .alreadyArrived h.phase ∧ t = s := by
  intro h s left
  have hs : Tracked n h s := tracked_run n cs
  have hp := hs.recorded.pace
  refine ⟨?_, fun x hx => lasting_of_mem_traces hx, history_traces _ _,
    fun p hlt hx e => sync_refused_iff hp hlt hx, fun p c hf hc e t => ?_⟩
  · have hstart : Remains (fresh n : Session ε) (fresh n) := ⟨rfl, rfl, fun p handle hp => by cases hp⟩
    obtain ⟨t, ht, hremains⟩ := hstart.run cs
    exact ⟨t, ht, hremains.barrier⟩
  · have hfree := isFree_iff.1 hf
    rw [step_refused_iff hf hc, sync_refused_iff hp (hs.lt hfree) (hs.live p _ hfree nofun).1,
      and_assoc]

/-- The participant 0 arrives in a call that runs out of time, the participant 1 drops its handle, and
the wait gives up. -/
example :
    let cs : List (Call Nat) :=
      [.issueAll, .syncWait 0 true, .move (.sync 0), .wait .timed [.drop 1], .giveUp 0, .inspect]
    traces cs ((fresh 2).run cs).1 =
      [(.issueAll, .issuedAll [0, 1]), (.move (.sync 0), .moved .done)] := by
  decide

end Session

end Lockstep.Barrier
