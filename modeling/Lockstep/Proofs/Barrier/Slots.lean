import Lockstep.Barrier.Basic

/-!
# What the operations of a barrier do

`sync_eq_ok_iff`, `sync_eq_error_iff` and `exit_eq_some_iff` say when an arrival and an exit happen
and what they change; callers cite them and never open the operations. `exists_sync` and `exists_exit`
say that both are open to whoever takes part. `mem_missing_iff`, `pairwise_missing` and `length_missing`
say which participants a wait that gives up reports, and how many.
-/

set_option autoImplicit false

namespace Lockstep.Barrier

variable {ε : Type} {b b' : Barrier ε} {p : Nat}

/-! ## Arrivals -/

theorem sync_eq_ok_iff : b.sync p = some (.ok b') ↔
    ∃ reached, b.slots[p]? = some (.active reached) ∧ reached ≠ some b.phase ∧ b' = { b with
      slots := b.slots.set p (.active (some b.phase))
      arrived := b.arrived + 1 } := by
  unfold sync
  split
  · rename_i reached hp
    by_cases h : reached = some b.phase
    · simp [hp, h]
    · simp [hp, h, eq_comm]
  · rename_i hp
    simp only [reduceCtorEq, false_iff, not_exists, not_and]
    intro reached h
    exact absurd h (hp reached)

theorem sync_eq_error_iff {e : SyncError} : b.sync p = some (.error e) ↔
    b.slots[p]? = some (.active (some b.phase)) ∧ e = .alreadyArrived b.phase := by
  unfold sync
  split
  · rename_i reached hp
    by_cases h : reached = some b.phase
    · simp [hp, h, eq_comm]
    · simp [hp, h]
  · rename_i hp
    simp only [reduceCtorEq, false_iff, not_and]
    intro h
    exact absurd h (hp _)

/-- An exit is an arrival unless the participant has arrived in this phase; its error belongs to the
phase that it arrives in, and to the next one where it is no arrival. -/
theorem exit_eq_some_iff {error : Option ε} : b.exit p error = some b' ↔
    ∃ reached, b.slots[p]? = some (.active reached) ∧
      (reached = some b.phase ∧ b' = { b with
          slots := b.slots.set p .done
          finished := b.finished + 1
          nextErrors := b.nextErrors ++ error.toList } ∨
        reached ≠ some b.phase ∧ b' = { b with
          slots := b.slots.set p .done
          finished := b.finished + 1
          arrived := b.arrived + 1
          errors := b.errors ++ error.toList }) := by
  unfold exit
  split
  · rename_i reached hp
    by_cases h : reached = some b.phase
    · simp [hp, h, eq_comm]
    · simp [hp, h, eq_comm]
  · rename_i hp
    simp only [reduceCtorEq, false_iff, not_exists, not_and]
    intro reached h
    exact absurd h (hp reached)

/-- Whoever takes part can sync, if only to be refused. -/
theorem exists_sync {reached : Option Nat} (hp : b.slots[p]? = some (.active reached)) :
    ∃ r, b.sync p = some r := by
  by_cases hr : reached = some b.phase
  · exact ⟨_, sync_eq_error_iff.2 ⟨by rw [hp, hr], rfl⟩⟩
  · exact ⟨_, sync_eq_ok_iff.2 ⟨_, hp, hr, rfl⟩⟩

/-- Whoever takes part can leave. -/
theorem exists_exit {reached : Option Nat} (hp : b.slots[p]? = some (.active reached))
    (error : Option ε) : ∃ b', b.exit p error = some b' := by
  by_cases hr : reached = some b.phase
  · exact ⟨_, exit_eq_some_iff.2 ⟨_, hp, .inl ⟨hr, rfl⟩⟩⟩
  · exact ⟨_, exit_eq_some_iff.2 ⟨_, hp, .inr ⟨hr, rfl⟩⟩⟩

/-! ## Who is missing -/

theorem mem_missing_iff :
    p ∈ b.missing ↔ ∃ slot, b.slots[p]? = some slot ∧ slot.hasArrived b.phase = false := by
  simp only [missing, List.mem_map, List.mem_filter, Prod.exists, List.mem_zipIdx_iff_getElem?,
    Bool.not_eq_eq_eq_not, Bool.not_true]
  refine ⟨?_, ?_⟩
  · rintro ⟨slot, q, ⟨hq, ha⟩, rfl⟩
    exact ⟨slot, hq, ha⟩
  · rintro ⟨slot, hp, ha⟩
    exact ⟨slot, p, ⟨hp, ha⟩, rfl⟩

/-- Indices stay in ascending order, each once, when elements are left out. -/
theorem pairwise_filter_zipIdx {α : Type} (f : α × Nat → Bool) (l : List α) :
    ((l.zipIdx.filter f).map (·.2)).Pairwise (· < ·) := by
  have hall : (l.zipIdx.map (·.2)).Pairwise (· < ·) := by
    rw [List.zipIdx_map_snd]
    exact List.pairwise_lt_range'
  exact hall.sublist (List.filter_sublist.map _)

theorem pairwise_missing (b : Barrier ε) : b.missing.Pairwise (· < ·) :=
  pairwise_filter_zipIdx _ b.slots

theorem length_missing (b : Barrier ε) :
    b.missing.length + b.slots.countP (·.hasArrived b.phase) = b.slots.length := by
  have hcount (slots : List Slot) (k : Nat) :
      ((slots.zipIdx k).filter fun s => !s.1.hasArrived b.phase).length +
        slots.countP (·.hasArrived b.phase) = slots.length := by
    induction slots generalizing k with
    | nil => rfl
    | cons slot slots ih =>
      have := ih (k + 1)
      cases hs : slot.hasArrived b.phase <;> simp [List.zipIdx_cons, hs] <;> omega
  rw [missing, List.length_map]
  exact hcount b.slots 0

end Lockstep.Barrier
