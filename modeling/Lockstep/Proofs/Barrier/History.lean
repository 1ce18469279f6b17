import Lockstep.Proofs.Barrier.Slots

/-!
# Histories of a barrier

A `History` lists what happened to a barrier, the newest event first. `History.phase`, `syncPhases`,
`Exited` and `reports` are read off it alone, without the barrier's counters, slots and buffers.
`Recorded n h b` says that `h` is the history of the barrier `b` for `n` participants, one
constructor for each operation. What the two have to do with each other:

* **Pace** (`Recorded.pace`): the slots hold the last sync of every participant that takes part, and
  `arrived` and `finished` count slots. The `j`-th sync of a participant was accepted in phase `j`,
  and whoever has not left has as many of them as phases were completed, or one more.
* **Reports** (`Recorded.account`): each buffer holds the errors of one number of syncs, and what
  the waits returned are the errors of all numbers before.
-/

set_option autoImplicit false

namespace Lockstep.Barrier

inductive Event (ε : Type) where
  /-- A sync of `p` was accepted. -/
  | synced (p : Nat)
  | exited (p : Nat) (error : Option ε)
  /-- The handle of `p` was dropped without an exit. -/
  | dropped (p : Nat)
  /-- A wait completed the phase and returned these errors. -/
  | completed (errors : List ε)
  deriving Repr, DecidableEq

/-- Whom the event is about. -/
def Event.participant? {ε : Type} : Event ε → Option Nat
  | .synced p | .exited p _ | .dropped p => some p
  | .completed _ => none

/-- What happened so far, the newest event first. -/
abbrev History (ε : Type) := List (Event ε)

namespace History

variable {ε : Type}

/-- The current phase: how many were completed. -/
@[simp] def phase : History ε → Nat
  | [] => 0
  | .completed _ :: h => phase h + 1
  | _ :: h => phase h

/-- The phases in which the syncs of `p` were accepted, in their order. -/
@[simp] def syncPhases (p : Nat) : History ε → List Nat
  | [] => []
  | .synced q :: h => syncPhases p h ++ if q = p then [phase h] else []
  | _ :: h => syncPhases p h

/-- How many syncs of `p` were accepted. -/
def syncs (p : Nat) (h : History ε) : Nat := (syncPhases p h).length

/-- The participant `p` has left. -/
def Exited (p : Nat) (h : History ε) : Prop := ∃ error, .exited p error ∈ h

/-- The participant `p` has left, or had a sync accepted in the current phase. -/
def Arrived (p : Nat) (h : History ε) : Prop := Exited p h ∨ phase h ∈ syncPhases p h

/-- Who left with an error after `k` accepted syncs, in the order of the exits. -/
@[simp] def reports (k : Nat) : History ε → List (Nat × ε)
  | [] => []
  | .exited p error :: h =>
    reports k h ++ if syncs p h = k then error.toList.map (p, ·) else []
  | _ :: h => reports k h

/-- The errors alone. -/
def errors (k : Nat) (h : History ε) : List ε := (reports k h).map (·.2)

/-- What the waits returned that completed a phase, in their order. -/
@[simp] def returns : History ε → List (List ε)
  | [] => []
  | .completed errors :: h => returns h ++ [errors]
  | _ :: h => returns h

/-! ## One event -/

variable {p q : Nat} {h : History ε} {error : Option ε} {es : List ε}

@[simp] theorem syncs_nil : syncs p ([] : History ε) = 0 := rfl

@[simp] theorem syncs_synced : syncs p (.synced q :: h) = syncs p h + if q = p then 1 else 0 := by
  simp only [syncs, syncPhases, List.length_append]
  split <;> rfl

@[simp] theorem syncs_exited : syncs p (.exited q error :: h) = syncs p h := rfl

@[simp] theorem syncs_dropped : syncs p (.dropped q :: h) = syncs p h := rfl

@[simp] theorem syncs_completed : syncs p (.completed es :: h) = syncs p h := rfl

@[simp] theorem exited_nil : ¬ Exited p ([] : History ε) := by simp [Exited]

@[simp] theorem exited_synced : Exited p (.synced q :: h) ↔ Exited p h := by simp [Exited]

@[simp] theorem exited_exited : Exited p (.exited q error :: h) ↔ p = q ∨ Exited p h := by
  simp [Exited, exists_or]

@[simp] theorem exited_dropped : Exited p (.dropped q :: h) ↔ Exited p h := by simp [Exited]

@[simp] theorem exited_completed : Exited p (.completed es :: h) ↔ Exited p h := by simp [Exited]

/-! ## A history that goes on -/

section
variable {e : Event ε} (he : e.participant? ≠ some p)
include he

/-- What happens to others does not change what a participant has done. -/
theorem exited_cons_of_ne : Exited p (e :: h) ↔ Exited p h := by
  cases e <;> simp_all [Event.participant?, eq_comm]

theorem syncs_cons_of_ne : syncs p (e :: h) = syncs p h := by
  cases e <;> simp_all [Event.participant?]

theorem dropped_mem_cons_of_ne : .dropped p ∈ e :: h ↔ .dropped p ∈ h := by
  cases e <;> simp_all [Event.participant?, eq_comm]

end

theorem phase_append (h' h : History ε) : phase (h' ++ h) = phase h' + phase h := by
  induction h' with
  | nil => simp
  | cons e h' ih => cases e <;> simp [ih]; omega

theorem exited_append {h' : History ε} : Exited p (h' ++ h) ↔ Exited p h' ∨ Exited p h := by
  simp [Exited, exists_or]

theorem syncs_append (h' h : History ε) : syncs p (h' ++ h) = syncs p h' + syncs p h := by
  induction h' with
  | nil => simp
  | cons e h' ih => cases e <;> simp [ih]; omega

section
variable {h' : History ε} (hne : ∀ e ∈ h', e.participant? ≠ some p)
include hne

theorem exited_append_of_ne : Exited p (h' ++ h) ↔ Exited p h := by
  induction h' with
  | nil => rfl
  | cons e h' ih =>
    rw [List.cons_append, exited_cons_of_ne (hne e List.mem_cons_self)]
    exact ih fun e he => hne e (List.mem_cons_of_mem _ he)

theorem exited_mem_append_of_ne : .exited p error ∈ h' ++ h ↔ .exited p error ∈ h := by
  rw [List.mem_append]
  exact or_iff_right fun hm => hne _ hm rfl

theorem syncs_append_of_ne : syncs p (h' ++ h) = syncs p h := by
  induction h' with
  | nil => rfl
  | cons e h' ih =>
    rw [List.cons_append, syncs_cons_of_ne (hne e List.mem_cons_self)]
    exact ih fun e he => hne e (List.mem_cons_of_mem _ he)

end

theorem syncs_eq_zero {h : History ε} (hs : .synced p ∉ h) : syncs p h = 0 := by
  induction h with
  | nil => rfl
  | cons e h ih =>
    rw [List.mem_cons, not_or] at hs
    cases e <;> simp_all [eq_comm]

theorem returns_eq_nil {h : History ε} (hne : ∀ e ∈ h, e.participant? ≠ none) : returns h = [] := by
  induction h with
  | nil => rfl
  | cons e h ih =>
    have ih := ih fun e he => hne e (List.mem_cons_of_mem _ he)
    cases e with
    | completed => exact absurd rfl (hne _ List.mem_cons_self)
    | synced | exited | dropped => exact ih

theorem length_returns (h : History ε) : h.returns.length = h.phase := by
  induction h with
  | nil => rfl
  | cons e h ih => cases e <;> simp [ih]

theorem returns_append (h' h : History ε) : returns (h' ++ h) = returns h ++ returns h' := by
  induction h' with
  | nil => simp
  | cons e h' ih => cases e <;> simp [ih]

end History

/-! ## The history of a barrier -/

open History

variable {ε : Type}

/-- `h` is what happened to the barrier `b` since it was made for `n` participants. Giving out a
handle is no event. -/
inductive Recorded (n : Nat) : History ε → Barrier ε → Prop
  | fresh : Recorded n [] (fresh n)
  | issue {h b} (issued : Nat) : Recorded n h b → Recorded n h { b with issued }
  | sync {h b b' p} : Recorded n h b → b.sync p = some (.ok b') → Recorded n (.synced p :: h) b'
  | exit {h b b' p error} : Recorded n h b → b.exit p error = some b' →
      Recorded n (.exited p error :: h) b'
  | drop {h b} (p : Nat) : Recorded n h b → Recorded n (.dropped p :: h) b
  | advance {h b} : Recorded n h b → b.isComplete = true →
      Recorded n (.completed b.advance.1 :: h) b.advance.2

/-- The slots, the counters and the syncs of the participants keep pace with the phases. -/
structure Pace (n : Nat) (h : History ε) (b : Barrier ε) : Prop where
  total : b.total = n
  size : b.slots.length = n
  phase : b.phase = h.phase
  active : ∀ p < n, ¬ h.Exited p → b.slots[p]? = some (.active (h.syncPhases p).getLast?)
  done : ∀ p, h.Exited p → b.slots[p]? = some .done
  arrived : b.arrived = b.slots.countP (·.hasArrived b.phase)
  finished : b.finished = b.slots.countP (· == .done)
  syncPhases : ∀ p, h.syncPhases p = List.range (h.syncs p)
  syncs_le : ∀ p, h.syncs p ≤ h.phase + 1
  phase_le : ∀ p < n, ¬ h.Exited p → h.phase ≤ h.syncs p

/-! ## Pace -/

variable {n p : Nat} {h : History ε} {b b' : Barrier ε} {reached : Option Nat}

theorem Pace.fresh (n : Nat) : Pace n ([] : History ε) (fresh n) where
  total := rfl
  size := List.length_replicate
  phase := rfl
  active p hp _ := by simp [Barrier.fresh, hp]
  done p hx := absurd hx exited_nil
  arrived := by simp [Barrier.fresh, List.countP_replicate, Slot.hasArrived]
  finished := by simp [Barrier.fresh, List.countP_replicate]
  syncPhases _ := rfl
  syncs_le p := Nat.zero_le _
  phase_le p _ _ := Nat.le_refl _

section
variable (hp : Pace n h b)
include hp

theorem Pace.of_active (hs : b.slots[p]? = some (.active reached)) :
    p < n ∧ ¬ h.Exited p ∧ reached = (h.syncPhases p).getLast? := by
  have hlt : p < n := by
    rw [← hp.size]
    exact (List.getElem?_eq_some_iff.1 hs).1
  have hx : ¬ h.Exited p := by
    intro hx
    rw [hp.done p hx] at hs
    cases hs
  rw [hp.active p hlt hx] at hs
  cases hs
  exact ⟨hlt, hx, rfl⟩

theorem Pace.lt_of_exited (hx : h.Exited p) : p < n :=
  hp.size ▸ (List.getElem?_eq_some_iff.1 (hp.done p hx)).1

/-- The last sync of a participant was in the current phase if it is one sync ahead. -/
theorem Pace.getLast?_eq_iff :
    (h.syncPhases p).getLast? = some h.phase ↔ h.syncs p = h.phase + 1 := by
  have hle := hp.syncs_le p
  rw [hp.syncPhases p, List.getLast?_range]
  split
  · simp; omega
  · simp only [Option.some.injEq]; omega

theorem Pace.arrived_iff : h.Arrived p ↔ h.Exited p ∨ h.syncs p = h.phase + 1 := by
  have hle := hp.syncs_le p
  rw [Arrived, hp.syncPhases p, List.mem_range]
  exact or_congr_right (by omega)

theorem Pace.mem_missing_iff : p ∈ b.missing ↔ p < n ∧ ¬ h.Arrived p := by
  rw [Barrier.mem_missing_iff, hp.arrived_iff, ← hp.getLast?_eq_iff]
  by_cases hx : h.Exited p
  · simp [hp.done p hx, hx, Slot.hasArrived]
  · by_cases hlt : p < n
    · simp [hp.active p hlt hx, hx, hlt, Slot.hasArrived, hp.phase]
    · have hnone : b.slots[p]? = none := List.getElem?_eq_none (by rw [hp.size]; omega)
      simp [hnone, hlt]

theorem Pace.length_missing : b.missing.length = n - b.arrived := by
  have := Barrier.length_missing b
  rw [← hp.arrived, hp.size] at this
  omega

theorem Pace.arrived_le : b.arrived ≤ n := by
  have := Barrier.length_missing b
  rw [← hp.arrived, hp.size] at this
  omega

theorem Pace.missing_eq_nil_iff : b.missing = [] ↔ b.isComplete = true := by
  rw [Barrier.isComplete_iff, hp.total, ← List.length_eq_zero_iff, hp.length_missing]
  omega

theorem Pace.isComplete_iff : b.isComplete = true ↔ ∀ p < n, h.Arrived p := by
  rw [← hp.missing_eq_nil_iff, List.eq_nil_iff_forall_not_mem]
  refine forall_congr' ?_
  intro p
  rw [hp.mem_missing_iff, not_and, Classical.not_not]

/-! ## Which operations are possible -/

theorem Pace.of_sync (hs : b.sync p = some (.ok b')) :
    p < n ∧ ¬ h.Exited p ∧ h.syncs p = h.phase := by
  obtain ⟨reached, hslot, hne, -⟩ := sync_eq_ok_iff.1 hs
  obtain ⟨hlt, hx, rfl⟩ := hp.of_active hslot
  have h1 := hp.syncs_le p
  have h2 := hp.phase_le p hlt hx
  rw [hp.phase, ne_eq, hp.getLast?_eq_iff] at hne
  exact ⟨hlt, hx, by omega⟩

theorem Pace.of_refused {e : SyncError} (hs : b.sync p = some (.error e)) :
    p < n ∧ ¬ h.Exited p ∧ h.syncs p = h.phase + 1 := by
  obtain ⟨hslot, -⟩ := sync_eq_error_iff.1 hs
  obtain ⟨hlt, hx, hlast⟩ := hp.of_active hslot
  rw [hp.phase, eq_comm, hp.getLast?_eq_iff] at hlast
  exact ⟨hlt, hx, hlast⟩

/-- Whoever has not left can sync and exit. -/
theorem Pace.exists_sync (hlt : p < n) (hx : ¬ h.Exited p) : ∃ r, b.sync p = some r :=
  Barrier.exists_sync (hp.active p hlt hx)

theorem Pace.exists_exit (error : Option ε) (hlt : p < n) (hx : ¬ h.Exited p) :
    ∃ b', b.exit p error = some b' :=
  Barrier.exists_exit (hp.active p hlt hx) error

/-! ## What each operation keeps -/

theorem Pace.sync (hs : b.sync p = some (.ok b')) : Pace n (.synced p :: h) b' := by
  obtain ⟨reached, hslot, hne, rfl⟩ := sync_eq_ok_iff.1 hs
  obtain ⟨hlt, hx, rfl⟩ := hp.of_active hslot
  have hsize : p < b.slots.length := hp.size ▸ hlt
  have hget : b.slots[p] = .active (h.syncPhases p).getLast? := List.getElem_eq_iff hsize |>.2 hslot
  have hnow := (hp.of_sync hs).2.2
  refine ⟨hp.total, by simpa using hp.size, hp.phase, ?_, ?_, ?_, ?_, ?_, ?_, ?_⟩
  · intro q hq hxq
    by_cases he : p = q
    · subst he
      simp [hsize, hp.phase]
    · simpa [he] using hp.active q hq (by simpa using hxq)
  · intro q hxq
    have hxq : h.Exited q := by simpa using hxq
    have he : p ≠ q := by
      rintro rfl
      exact hx hxq
    simpa [he] using hp.done q hxq
  · simp only [List.countP_set hsize, hget, Slot.hasArrived, beq_iff_eq, hne, hp.arrived]
    simp
  · simp only [List.countP_set hsize, hget, hp.finished]
    simp
  · intro q
    by_cases he : p = q
    · subst he
      simp [hp.syncPhases, List.range_succ, hnow]
    · simpa [he] using hp.syncPhases q
  · intro q
    have := hp.syncs_le q
    by_cases he : p = q
    · subst he
      simp; omega
    · simpa [he] using this
  · intro q hq hxq
    have := hp.phase_le q hq (by simpa using hxq)
    simp only [History.phase, syncs_synced]
    omega

theorem Pace.exit {error : Option ε} (hs : b.exit p error = some b') :
    Pace n (.exited p error :: h) b' := by
  obtain ⟨reached, hslot, hcase⟩ := exit_eq_some_iff.1 hs
  obtain ⟨hlt, hx, rfl⟩ := hp.of_active hslot
  have hsize : p < b.slots.length := hp.size ▸ hlt
  have hget : b.slots[p] = .active (h.syncPhases p).getLast? := List.getElem_eq_iff hsize |>.2 hslot
  have hfields : b'.total = b.total ∧ b'.phase = b.phase ∧ b'.slots = b.slots.set p .done ∧
      b'.finished = b.finished + 1 ∧
      b'.arrived = (b.slots.set p .done).countP (·.hasArrived b.phase) := by
    rw [List.countP_set hsize, hget, ← hp.arrived]
    rcases hcase with ⟨hr, rfl⟩ | ⟨hr, rfl⟩ <;> simp [Slot.hasArrived, hr]
    have : 0 < b.arrived := by
      rw [hp.arrived, List.countP_pos_iff]
      exact ⟨_, List.mem_of_getElem? hslot, by simp [Slot.hasArrived, hr]⟩
    omega
  obtain ⟨htotal, hphase, hslots, hfinished, harrived⟩ := hfields
  refine ⟨htotal.trans hp.total, by simpa [hslots] using hp.size, hphase.trans hp.phase,
    ?_, ?_, ?_, ?_, hp.syncPhases, hp.syncs_le, ?_⟩
  · intro q hq hxq
    rw [exited_exited, not_or] at hxq
    simpa [hslots, Ne.symm hxq.1] using hp.active q hq hxq.2
  · intro q hxq
    rw [hslots, List.getElem?_set]
    split
    · rfl
    · rename_i he
      exact hp.done q ((exited_exited.1 hxq).resolve_left (Ne.symm he))
  · rw [harrived, hslots, hphase]
  · simp [hfinished, hslots, List.countP_set hsize, hget, hp.finished]
  · intro q hq hxq
    rw [exited_exited, not_or] at hxq
    exact hp.phase_le q hq hxq.2

theorem Pace.drop (p : Nat) : Pace n (.dropped p :: h) b where
  total := hp.total
  size := hp.size
  phase := hp.phase
  active q hq hx := hp.active q hq (by simpa using hx)
  done q hx := hp.done q (by simpa using hx)
  arrived := hp.arrived
  finished := hp.finished
  syncPhases := hp.syncPhases
  syncs_le := hp.syncs_le
  phase_le q hq hx := hp.phase_le q hq (by simpa using hx)

theorem Pace.issue (issued : Nat) : Pace n h { b with issued } := { hp with }

/-- Completing a phase leaves everyone one phase behind who had arrived by a sync. -/
theorem Pace.advance (hc : b.isComplete = true) :
    Pace n (.completed b.advance.1 :: h) b.advance.2 := by
  have harrived := hp.isComplete_iff.1 hc
  refine ⟨hp.total, hp.size, ?_, ?_, ?_, ?_, hp.finished, hp.syncPhases, ?_, ?_⟩
  · simp [Barrier.advance, hp.phase]
  · intro q hq hx
    exact hp.active q hq (by simpa using hx)
  · intro q hx
    exact hp.done q (by simpa using hx)
  · -- nobody has reached the phase that starts, so those who have left are the arrived ones
    show b.finished = b.slots.countP (·.hasArrived (b.phase + 1))
    rw [hp.finished]
    refine List.countP_congr ?_
    intro slot hmem
    obtain ⟨q, hq⟩ := List.mem_iff_getElem?.1 hmem
    cases slot with
    | done => simp [Slot.hasArrived]
    | active reached =>
      obtain ⟨hlt, hx, rfl⟩ := hp.of_active hq
      have hle := hp.syncs_le q
      have hlast : (h.syncPhases q).getLast? ≠ some (h.phase + 1) := by
        rw [hp.syncPhases q, List.getLast?_range]
        split <;> simp; omega
      simp [Slot.hasArrived, hp.phase, hlast]
  · intro q
    exact Nat.le_succ_of_le (hp.syncs_le q)
  · intro q hq hx
    have hx : ¬ h.Exited q := by simpa using hx
    rcases hp.arrived_iff.1 (harrived q hq) with h1 | h1
    · exact absurd h1 hx
    · exact Nat.le_of_eq h1.symm

end

theorem Recorded.pace (hr : Recorded n h b) : Pace n h b := by
  induction hr with
  | fresh => exact Pace.fresh n
  | issue issued _ ih => exact ih.issue issued
  | sync _ hs ih => exact ih.sync hs
  | exit _ hs ih => exact ih.exit hs
  | drop p _ ih => exact ih.drop p
  | advance _ hc ih => exact ih.advance hc

/-! ## Reports -/

/-- The buffers and the returned lists hold the reports, told apart by the number of syncs. -/
structure Account (h : History ε) (b : Barrier ε) : Prop where
  mem_reports : ∀ k p e, (p, e) ∈ h.reports k ↔ .exited p (some e) ∈ h ∧ h.syncs p = k
  nodup : ∀ k, ((h.reports k).map (·.1)).Nodup
  errors : b.errors = h.errors h.phase
  nextErrors : b.nextErrors = h.errors (h.phase + 1)
  returns : h.returns = (List.range h.phase).map fun k => h.errors k

theorem mem_reports_exited {k q : Nat} {e : ε} {error : Option ε} :
    (q, e) ∈ History.reports k (.exited p error :: h) ↔
      (q, e) ∈ h.reports k ∨ p = q ∧ error = some e ∧ h.syncs p = k := by
  rw [reports, List.mem_append]
  refine or_congr_right ?_
  split
  · rename_i hk
    simp only [List.mem_map, Option.mem_toList, Prod.mk.injEq, hk, and_true]
    refine ⟨?_, ?_⟩
    · rintro ⟨a, ha, rfl, rfl⟩
      exact ⟨rfl, ha⟩
    · rintro ⟨rfl, he⟩
      exact ⟨e, he, rfl, rfl⟩
  · rename_i hk
    simp [hk]

theorem errors_exited {k : Nat} {error : Option ε} :
    History.errors k (.exited p error :: h) =
      h.errors k ++ if h.syncs p = k then error.toList else [] := by
  simp only [History.errors, reports, List.map_append]
  split <;> simp [Function.comp_def]

section
variable (ha : Account h b)
include ha

theorem Account.exited_of_mem {k : Nat} {e : ε} (hm : (p, e) ∈ h.reports k) : h.Exited p :=
  ⟨_, ((ha.mem_reports k p e).1 hm).1⟩

theorem Account.sync (hp : Pace n h b) (hs : b.sync p = some (.ok b')) :
    Account (.synced p :: h) b' := by
  obtain ⟨reached, hslot, -, rfl⟩ := sync_eq_ok_iff.1 hs
  obtain ⟨-, hx, -⟩ := hp.of_active hslot
  refine ⟨?_, ha.nodup, ha.errors, ha.nextErrors, ha.returns⟩
  intro k q e
  have hmem := ha.mem_reports k q e
  by_cases he : p = q
  · subst he
    have hno : Event.exited p (some e) ∉ h := fun hm => hx ⟨_, hm⟩
    simpa [hno] using hmem
  · simpa [he] using hmem

/-- Who leaves has reported nothing before. -/
theorem Account.nodup_exited {error : Option ε} (hx : ¬ h.Exited p) (k : Nat) :
    ((History.reports k (.exited p error :: h)).map (·.1)).Nodup := by
  rw [reports, List.map_append]
  refine List.nodup_append.2 ⟨ha.nodup k, ?_, ?_⟩
  · split
    · cases error <;> simp
    · exact List.nodup_nil
  · rintro q hq r hr rfl
    obtain rfl : q = p := by
      split at hr
      · obtain ⟨report, hreport, rfl⟩ := List.mem_map.1 hr
        obtain ⟨e, -, rfl⟩ := List.mem_map.1 hreport
        rfl
      · cases hr
    obtain ⟨⟨q, e⟩, hm, rfl⟩ := List.mem_map.1 hq
    exact hx (ha.exited_of_mem hm)

theorem Account.exit {error : Option ε} (hp : Pace n h b) (hs : b.exit p error = some b') :
    Account (.exited p error :: h) b' := by
  obtain ⟨reached, hslot, hcase⟩ := exit_eq_some_iff.1 hs
  obtain ⟨hlt, hx, rfl⟩ := hp.of_active hslot
  have hle := hp.syncs_le p
  have hge := hp.phase_le p hlt hx
  rw [hp.phase, ne_eq, hp.getLast?_eq_iff] at hcase
  refine ⟨?_, ?_, ?_, ?_, ?_⟩
  · intro k q e
    rw [mem_reports_exited, ha.mem_reports k q e, List.mem_cons, syncs_exited]
    refine ⟨?_, ?_⟩
    · rintro (⟨hm, hk⟩ | ⟨rfl, rfl, hk⟩)
      · exact ⟨.inr hm, hk⟩
      · exact ⟨.inl rfl, hk⟩
    · rintro ⟨he | hm, hk⟩
      · cases he
        exact .inr ⟨rfl, rfl, hk⟩
      · exact .inl ⟨hm, hk⟩
  · exact ha.nodup_exited hx
  · -- an exit counts for the current phase before the arrival, and for the next after it
    show b'.errors = History.errors h.phase (.exited p error :: h)
    rw [errors_exited, ← ha.errors]
    rcases hcase with ⟨hk, rfl⟩ | ⟨hk, rfl⟩
    · simp [hk]
    · simp [show h.syncs p = h.phase by omega]
  · show b'.nextErrors = History.errors (h.phase + 1) (.exited p error :: h)
    rw [errors_exited, ← ha.nextErrors]
    rcases hcase with ⟨hk, rfl⟩ | ⟨hk, rfl⟩
    · simp [hk]
    · simp [hk]
  · refine ha.returns.trans (List.map_congr_left ?_)
    intro k hk
    have := List.mem_range.1 hk
    rw [errors_exited, if_neg (by omega), List.append_nil]

/-- Nobody leaves after more syncs than one ahead of the phase. -/
theorem Account.errors_eq_nil (hp : Pace n h b) {k : Nat} (hk : h.phase + 1 < k) :
    h.errors k = [] := by
  rw [History.errors, List.map_eq_nil_iff, List.eq_nil_iff_forall_not_mem]
  rintro ⟨q, e⟩ hm
  have hsyncs := ((ha.mem_reports _ q e).1 hm).2
  have hle := hp.syncs_le q
  omega

theorem Account.advance (hp : Pace n h b) :
    Account (.completed b.advance.1 :: h) b.advance.2 := by
  refine ⟨fun k q e => by simpa using ha.mem_reports k q e, ha.nodup, ha.nextErrors, ?_, ?_⟩
  · exact (ha.errors_eq_nil hp (Nat.lt_succ_self _)).symm
  · show h.returns ++ [b.errors] = (List.range (h.phase + 1)).map fun k => h.errors k
    rw [List.range_succ, List.map_append, ha.returns, ha.errors]
    rfl

end

theorem Recorded.account (hr : Recorded n h b) : Account h b := by
  induction hr with
  | fresh =>
    exact ⟨fun _ _ _ => by simp, fun _ => List.nodup_nil, rfl, rfl, rfl⟩
  | issue _ _ ih => exact { ih with }
  | sync hr hs ih => exact ih.sync hr.pace hs
  | exit hr hs ih => exact ih.exit hr.pace hs
  | drop p _ ih =>
    exact ⟨fun k q e => by simpa using ih.mem_reports k q e, ih.nodup, ih.errors, ih.nextErrors,
      ih.returns⟩
  | advance hr _ ih => exact ih.advance hr.pace

end Lockstep.Barrier
