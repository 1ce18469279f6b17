import Lockstep.Barrier.Session
import Lockstep.Proofs.Barrier.History

/-!
# Histories of calls

`history cs as` is what the calls `cs` did to a barrier, read off their answers `as`.
`Session.Tracked n h s` ties the session `s` to its history `h`: the barrier has that history, a
handle that can still be used belongs to a participant that takes part (`live`), a blocked call has
made one sync more than phases were completed when it arrived (`blocked`), and a dropped handle was
the end of its participant (`dropped`). `Session.tracked_run`: every run from a fresh session is
tracked.
-/

set_option autoImplicit false

namespace Lockstep.Barrier

variable {ε : Type}

/-! ## The events of a call -/

def Move.events : Move ε → MoveAnswer → History ε
  | .sync p, .done => [.synced p]
  | .exit p error, .done => [.exited p error]
  | .drop p, .done => [.dropped p]
  | _, _ => []

/-- What the moves did, the newest event first. -/
def movesEvents : List (Move ε) → List MoveAnswer → History ε
  | m :: ms, a :: as => movesEvents ms as ++ m.events a
  | _, _ => []

/-- The errors that a wait returned, if it completed the phase. -/
def WaitAnswer.errors? : WaitAnswer ε → Option (List ε)
  | .completed errors => some errors
  | .clean => some []
  | .failed e => some e.errors
  | .timedOut _ | .wouldBlock => none

/-- How a wait ends that completes `phase`, in which these errors were reported. -/
def WaitKind.report (phase : Nat) (errors : List ε) : WaitKind → WaitAnswer ε
  | .plain | .timed => .completed errors
  | .checked => if errors.isEmpty then .clean else .failed ⟨phase, errors⟩

theorem WaitKind.errors?_report (kind : WaitKind) (phase : Nat) (errors : List ε) :
    (kind.report phase errors).errors? = some errors := by
  cases kind with
  | plain | timed => rfl
  | checked => cases errors <;> rfl

/-- How a wait ends that finds the phase incomplete: it gives up, or it stays blocked. -/
def WaitKind.refusal (b : Barrier ε) : WaitKind → WaitAnswer ε
  | .timed => .timedOut b.timeout
  | .plain | .checked => .wouldBlock

/-- What the call did, the newest event first. A blocking sync that waits has been accepted; its
return is no event. -/
def Call.events : Call ε → Answer ε → History ε
  | .move m, .moved a => m.events a
  | .syncWait p _, .blocked => [.synced p]
  | .wait _ during, .waited answers outcome =>
    outcome.errors?.toList.map .completed ++ movesEvents during answers
  | _, _ => []

/-- What the calls did, the newest event first. -/
def history : List (Call ε) → List (Answer ε) → History ε
  | c :: cs, a :: as => history cs as ++ c.events a
  | _, _ => []

namespace Session

open History

/-- The session of a new barrier, before any handle is given out. -/
def fresh (n : Nat) : Session ε := { barrier := .fresh n, handles := [] }

theorem create_eq_ok_iff {n : Nat} {s : Session ε} :
    create n = .ok (.ok s) ↔ n ≠ 0 ∧ Word.fitsBlock n slotSize = true ∧ s = fresh n := by
  unfold create Barrier.create
  by_cases hn : n = 0
  · simp [hn, bind, Except.bind, pure, Except.pure, Except.map]
  · by_cases hf : Word.fitsBlock n slotSize = true
    · simp [hn, hf, bind, Except.bind, pure, Except.pure, Except.map, fresh, eq_comm]
    · simp [hn, hf, bind, Except.bind]

/-- The session after the calls, and what they did. -/
def after (n : Nat) (cs : List (Call ε)) : Session ε := ((fresh n).run cs).2

def past (n : Nat) (cs : List (Call ε)) : History ε := history cs ((fresh n).run cs).1

/-! ## Tracked sessions -/

/-- The handles of the session `s` and its barrier fit the history `h`. -/
structure Tracked (n : Nat) (h : History ε) (s : Session ε) : Prop where
  recorded : Recorded n h s.barrier
  issued : s.handles.length = s.barrier.issued
  issued_le : s.barrier.issued ≤ n
  used : ∀ p, h.Exited p ∨ .dropped p ∈ h → p < s.handles.length
  live : ∀ p handle, s.handles[p]? = some handle → handle ≠ .gone → ¬ h.Exited p ∧ .dropped p ∉ h
  blocked : ∀ p timed reached, s.handles[p]? = some (.blocked timed reached) →
    h.syncs p = reached + 1
  dropped : ∀ p later earlier, h = later ++ .dropped p :: earlier →
    ¬ h.Exited p ∧ h.syncs p = History.syncs p earlier

theorem isFree_iff {s : Session ε} {p : Nat} : s.isFree p = true ↔ s.handles[p]? = some .free := by
  simp [isFree]

theorem Tracked.fresh (n : Nat) : Tracked n ([] : History ε) (fresh n) where
  recorded := .fresh
  issued := rfl
  issued_le := Nat.zero_le n
  used p hp := by simp at hp
  live p handle hp := by simp [Session.fresh] at hp
  blocked p timed reached hp := by simp [Session.fresh] at hp
  dropped p later earlier h := by simp at h

theorem handles_update {s : Session ε} {b : Barrier ε} {p q : Nat} {handle handle' : Handle}
    (hq : (s.update p handle b).handles[q]? = some handle') :
    q = p ∧ handle' = handle ∨ q ≠ p ∧ s.handles[q]? = some handle' := by
  by_cases hqp : q = p
  · subst hqp
    have hlt : q < s.handles.length := by
      have := (List.getElem?_eq_some_iff.1 hq).1
      rwa [update, List.length_set] at this
    rw [update, List.getElem?_set_self hlt, Option.some.injEq] at hq
    exact .inl ⟨rfl, hq.symm⟩
  · rw [update, List.getElem?_set_ne (Ne.symm hqp)] at hq
    exact .inr ⟨hqp, hq⟩

section
variable {n p : Nat} {h : History ε} {s : Session ε} {b : Barrier ε} (ht : Tracked n h s)
include ht

theorem Tracked.lt {handle : Handle} (hp : s.handles[p]? = some handle) : p < n := by
  have := (List.getElem?_eq_some_iff.1 hp).1
  have := ht.issued
  have := ht.issued_le
  omega

/-- A participant does something with its handle, which is `handle` afterwards. -/
theorem Tracked.touch {e : Event ε} (handle : Handle) (he : e.participant? = some p)
    (hfree : s.handles[p]? = some .free) (hr : Recorded n (e :: h) b)
    (hissued : b.issued = s.barrier.issued)
    (hlive : handle ≠ .gone → ¬ History.Exited p (e :: h) ∧ .dropped p ∉ e :: h)
    (hblocked : ∀ timed reached, handle = .blocked timed reached →
      History.syncs p (e :: h) = reached + 1) :
    Tracked n (e :: h) (s.update p handle b) := by
  have hp : p < s.handles.length := (List.getElem?_eq_some_iff.1 hfree).1
  obtain ⟨hx, hd⟩ := ht.live p _ hfree nofun
  have hother {q : Nat} (hq : q ≠ p) : e.participant? ≠ some q := by
    rw [he]
    exact fun h => hq (Option.some.inj h).symm
  refine ⟨hr, ?_, ?_, ?_, ?_, ?_, ?_⟩
  · rw [update, List.length_set, ht.issued, hissued]
  · rw [update, hissued]
    exact ht.issued_le
  · intro q hq
    rw [update, List.length_set]
    by_cases hqp : q = p
    · exact hqp ▸ hp
    · rw [exited_cons_of_ne (hother hqp), dropped_mem_cons_of_ne (hother hqp)] at hq
      exact ht.used q hq
  · intro q handle' hq hg
    rcases handles_update hq with ⟨rfl, rfl⟩ | ⟨hqp, hq⟩
    · exact hlive hg
    · rw [exited_cons_of_ne (hother hqp), dropped_mem_cons_of_ne (hother hqp)]
      exact ht.live q handle' hq hg
  · intro q timed reached hq
    rcases handles_update hq with ⟨rfl, hh⟩ | ⟨hqp, hq⟩
    · exact hblocked timed reached hh.symm
    · rw [syncs_cons_of_ne (hother hqp)]
      exact ht.blocked q timed reached hq
  · intro q later earlier hq
    cases later with
    | nil =>
      obtain ⟨rfl, rfl⟩ := List.cons.inj hq
      obtain rfl : q = p := Option.some.inj he
      simpa using hx
    | cons e' later =>
      obtain ⟨rfl, rfl⟩ := List.cons.inj hq
      have hqp : q ≠ p := by
        rintro rfl
        exact hd (List.mem_append_right _ List.mem_cons_self)
      rw [exited_cons_of_ne (hother hqp), syncs_cons_of_ne (hother hqp)]
      exact ht.dropped q later earlier rfl

theorem Tracked.move (m : Move ε) : Tracked n (m.events (s.move m).1 ++ h) (s.move m).2 := by
  cases m with
  | sync p =>
    by_cases hf : s.isFree p = true
    · have hfree := isFree_iff.1 hf
      obtain ⟨hx, hd⟩ := ht.live p _ hfree nofun
      cases hs : s.barrier.sync p with
      | none => simpa [Session.move, hf, hs, Move.events] using ht
      | some r =>
        cases r with
        | error e => simpa [Session.move, hf, hs, Move.events] using ht
        | ok b =>
          have hissued : b.issued = s.barrier.issued := by
            obtain ⟨_, -, -, rfl⟩ := sync_eq_ok_iff.1 hs
            rfl
          have := ht.touch .free rfl hfree (ht.recorded.sync hs) hissued
            (fun _ => by simp [hx, hd]) nofun
          simpa [Session.move, hf, hs, Move.events] using this
    · simpa [Session.move, hf, Move.events] using ht
  | exit p error =>
    by_cases hf : s.isFree p = true
    · have hfree := isFree_iff.1 hf
      cases hs : s.barrier.exit p error with
      | none => simpa [Session.move, hf, hs, Move.events] using ht
      | some b =>
        have hissued : b.issued = s.barrier.issued := by
          obtain ⟨_, -, ⟨-, rfl⟩ | ⟨-, rfl⟩⟩ := exit_eq_some_iff.1 hs <;> rfl
        have := ht.touch .gone rfl hfree (ht.recorded.exit hs) hissued
          (fun hg => absurd rfl hg) nofun
        simpa [Session.move, hf, hs, Move.events] using this
    · simpa [Session.move, hf, Move.events] using ht
  | drop p =>
    by_cases hf : s.isFree p = true
    · have := ht.touch .gone rfl (isFree_iff.1 hf) (ht.recorded.drop p) rfl
        (fun hg => absurd rfl hg) nofun
      simpa [Session.move, hf, Move.events] using this
    · simpa [Session.move, hf, Move.events] using ht

end

theorem Tracked.moves {n : Nat} {h : History ε} {s : Session ε} (ht : Tracked n h s)
    (ms : List (Move ε)) :
    Tracked n (movesEvents ms (s.moves ms).1 ++ h) (s.moves ms).2 := by
  induction ms generalizing h s with
  | nil => exact ht
  | cons m ms ih =>
    have := ih (ht.move m)
    simpa [Session.moves, movesEvents] using this

section
variable {n p : Nat} {h : History ε} {s : Session ε} (ht : Tracked n h s)
include ht

/-- A blocked call returns, and its handle can be used again. -/
theorem Tracked.unblock {timed : Bool} {reached : Nat}
    (hp : s.handles[p]? = some (.blocked timed reached)) :
    Tracked n h (s.update p .free s.barrier) := by
  refine ⟨ht.recorded, ?_, ht.issued_le, ?_, ?_, ?_, ht.dropped⟩
  · rw [update, List.length_set, ht.issued]
  · intro q hq
    rw [update, List.length_set]
    exact ht.used q hq
  · intro q handle hq hg
    rcases handles_update hq with ⟨rfl, rfl⟩ | ⟨-, hq⟩
    · exact ht.live q _ hp nofun
    · exact ht.live q handle hq hg
  · intro q timed reached hq
    rcases handles_update hq with ⟨-, hh⟩ | ⟨-, hq⟩
    · cases hh
    · exact ht.blocked q timed reached hq

theorem Tracked.advance (hc : s.barrier.isComplete = true) :
    Tracked n (.completed s.barrier.advance.1 :: h) { s with barrier := s.barrier.advance.2 } where
  recorded := ht.recorded.advance hc
  issued := ht.issued
  issued_le := ht.issued_le
  used q hq := ht.used q (by simpa using hq)
  live q handle hq hg := by simpa using ht.live q handle hq hg
  blocked q timed reached hq := by simpa using ht.blocked q timed reached hq
  dropped q later earlier hq := by
    cases later with
    | nil => cases hq
    | cons e later =>
      obtain ⟨rfl, rfl⟩ := List.cons.inj hq
      simpa using ht.dropped q later earlier rfl

/-- More handles are given out, all of them free. -/
theorem Tracked.issue {k : Nat} (hk : s.barrier.issued + k ≤ n) :
    Tracked n h { barrier := { s.barrier with issued := s.barrier.issued + k },
                  handles := s.handles ++ List.replicate k .free } := by
  have hnew (q : Nat) (handle : Handle)
      (hq : (s.handles ++ List.replicate k .free)[q]? = some handle) :
      s.handles[q]? = some handle ∨ handle = .free ∧ s.handles.length ≤ q := by
    by_cases hlt : q < s.handles.length
    · rw [List.getElem?_append_left hlt] at hq
      exact .inl hq
    · rw [List.getElem?_append_right (Nat.le_of_not_lt hlt), List.getElem?_replicate] at hq
      split at hq
      · exact .inr ⟨(Option.some.inj hq).symm, Nat.le_of_not_lt hlt⟩
      · cases hq
  refine ⟨ht.recorded.issue _, ?_, hk, ?_, ?_, ?_, ht.dropped⟩
  · simp [ht.issued]
  · intro q hq
    rw [List.length_append]
    exact Nat.lt_add_right _ (ht.used q hq)
  · intro q handle hq hg
    rcases hnew q handle hq with hq | ⟨-, hle⟩
    · exact ht.live q handle hq hg
    · -- nobody has used a handle before it was given out
      have hno : ¬ (h.Exited q ∨ .dropped q ∈ h) := fun hu => by
        have := ht.used q hu
        omega
      exact not_or.1 hno
  · intro q timed reached hq
    rcases hnew q _ hq with hq | ⟨hf, -⟩
    · exact ht.blocked q timed reached hq
    · cases hf

end

/-! ## Waits -/

variable {n : Nat} {h : History ε}

/-- A wait that finds the phase complete reports its errors. -/
theorem wait_eq_of_complete {s : Session ε} (kind : WaitKind) {during : List (Move ε)}
    (hc : (s.moves during).2.barrier.isComplete = true) :
    s.wait kind during =
      (.waited (s.moves during).1
        (kind.report s.barrier.phase (s.moves during).2.barrier.advance.1),
        { (s.moves during).2 with barrier := (s.moves during).2.barrier.advance.2 }) := by
  cases kind <;> simp [wait, hc, WaitKind.report]

theorem wait_of_complete {s : Session ε} (kind : WaitKind) {during : List (Move ε)}
    (hc : (s.moves during).2.barrier.isComplete = true) :
    ∃ outcome, s.wait kind during = (.waited (s.moves during).1 outcome,
        { (s.moves during).2 with barrier := (s.moves during).2.barrier.advance.2 }) ∧
      outcome.errors? = some (s.moves during).2.barrier.advance.1 :=
  ⟨_, wait_eq_of_complete kind hc, kind.errors?_report _ _⟩

theorem wait_of_not_complete {s : Session ε} (kind : WaitKind) {during : List (Move ε)}
    (hc : ¬ (s.moves during).2.barrier.isComplete = true) :
    s.wait kind during = (.waited (s.moves during).1 (kind.refusal (s.moves during).2.barrier),
      (s.moves during).2) := by
  cases kind <;> simp [wait, hc, WaitKind.refusal]

/-! ## Runs -/

theorem Tracked.syncWait {s : Session ε} (ht : Tracked n h s) (p : Nat) (timed : Bool) :
    Tracked n (Call.events (.syncWait p timed) (s.syncWait p timed).1 ++ h)
      (s.syncWait p timed).2 := by
  by_cases hf : s.isFree p = true
  · have hfree := isFree_iff.1 hf
    obtain ⟨hx, hd⟩ := ht.live p _ hfree nofun
    cases hs : s.barrier.sync p with
    | none => simpa [Session.syncWait, hf, hs, Call.events] using ht
    | some r =>
      cases r with
      | error e => simpa [Session.syncWait, hf, hs, Call.events] using ht
      | ok b =>
        have hr := ht.recorded.sync hs
        have hp := ht.recorded.pace
        have hnow : h.syncs p = s.barrier.phase := (hp.of_sync hs).2.2.trans hp.phase.symm
        obtain ⟨_, -, -, rfl⟩ := sync_eq_ok_iff.1 hs
        have := ht.touch (.blocked timed s.barrier.phase) rfl hfree hr rfl
          (fun _ => by simp [hx, hd]) fun timed' reached hh => by
            cases hh
            simp [hnow]
        simpa [Session.syncWait, hf, hs, Call.events] using this
  · simpa [Session.syncWait, hf, Call.events] using ht

theorem Tracked.join {s : Session ε} (ht : Tracked n h s) (p : Nat) : Tracked n h (s.join p).2 := by
  unfold Session.join
  split
  · rename_i hp
    split
    · exact ht
    · exact ht.unblock hp
  · exact ht

theorem Tracked.giveUp {s : Session ε} (ht : Tracked n h s) (p : Nat) :
    Tracked n h (s.giveUp p).2 := by
  unfold Session.giveUp
  split
  · rename_i hp
    split
    · exact ht.unblock hp
    · exact ht.unblock hp
  · exact ht
  · exact ht

theorem Tracked.wait {s : Session ε} (ht : Tracked n h s) (kind : WaitKind)
    (during : List (Move ε)) :
    Tracked n (Call.events (.wait kind during) (s.wait kind during).1 ++ h)
      (s.wait kind during).2 := by
  have hm := ht.moves during
  by_cases hc : (s.moves during).2.barrier.isComplete = true
  · obtain ⟨outcome, hw, he⟩ := wait_of_complete kind hc
    have := hm.advance hc
    simpa [hw, Call.events, he] using this
  · rw [wait_of_not_complete kind hc]
    have he : (kind.refusal (s.moves during).2.barrier).errors? = none := by cases kind <;> rfl
    simpa [Call.events, he] using hm

theorem Tracked.step {s : Session ε} (ht : Tracked n h s) (c : Call ε) :
    Tracked n (c.events (s.step c).1 ++ h) (s.step c).2 := by
  have htotal := ht.recorded.pace.total
  have hle := ht.issued_le
  cases c with
  | issue =>
    by_cases hlt : s.barrier.issued < s.barrier.total
    · have := ht.issue (k := 1) (by omega)
      simpa [Session.step, Barrier.issue, hlt, Call.events] using this
    · simpa [Session.step, Barrier.issue, hlt, Call.events] using ht
  | issueAll =>
    have := ht.issue (k := s.barrier.total - s.barrier.issued) (by omega)
    have hmax : max s.barrier.issued s.barrier.total =
        s.barrier.issued + (s.barrier.total - s.barrier.issued) := by omega
    simpa [Session.step, Barrier.issueAll, hmax, Call.events, List.map_const'] using this
  | move m => simpa [Session.step, Call.events] using ht.move m
  | syncWait p timed => exact ht.syncWait p timed
  | join p =>
    have he : Call.events (.join p) (s.join p).1 = [] := by cases (s.join p).1 <;> rfl
    simpa [Session.step, he] using ht.join p
  | giveUp p =>
    have he : Call.events (.giveUp p) (s.giveUp p).1 = [] := by cases (s.giveUp p).1 <;> rfl
    simpa [Session.step, he] using ht.giveUp p
  | wait kind during => exact ht.wait kind during
  | inspect => exact ht

theorem Tracked.run {s : Session ε} (ht : Tracked n h s) (cs : List (Call ε)) :
    Tracked n (history cs (s.run cs).1 ++ h) (s.run cs).2 := by
  induction cs generalizing h s with
  | nil => exact ht
  | cons c cs ih =>
    have := ih (ht.step c)
    simpa [Session.run, history] using this

theorem tracked_run (n : Nat) (cs : List (Call ε)) : Tracked n (past n cs) (after n cs) := by
  have := (Tracked.fresh n).run cs
  rwa [List.append_nil] at this

end Session

end Lockstep.Barrier
