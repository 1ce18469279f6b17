/-!
# Labelled machines

A `Machine` says which state each label leads to, where the label is enabled at all, and which labels
have to wait for which: a time-out is a label that may be taken only where nothing it waits for can
happen. `Run` is a finite sequence of steps, so a statement about all runs is one about all
interleavings; `drive` performs one of them.
-/

set_option autoImplicit false

namespace Lockstep

structure Machine (S A : Type) where
  /-- The state after the label, if the label is enabled. -/
  step : S → A → Option S
  /-- `precedes a b`: where `a` is enabled, `b` has to wait. -/
  precedes : A → A → Bool := fun _ _ => false

namespace Machine

variable {S A : Type} (M : Machine S A)

/-- Nothing that `a` waits for is enabled. -/
def Ready (s : S) (a : A) : Prop := ∀ b, M.precedes b a = true → M.step s b = none

/-- The machine may go from `s` to `t` by `a`. -/
def Next (s : S) (a : A) (t : S) : Prop := M.Ready s a ∧ M.step s a = some t

/-- `Run s as t`: the labels `as`, taken one after the other, lead from `s` to `t`. -/
inductive Run : S → List A → S → Prop
  | nil (s : S) : Run s [] s
  | cons {s t u : S} {a : A} {as : List A} : M.Next s a t → Run t as u → Run s (a :: as) u

def Reaches (s t : S) : Prop := ∃ as, M.Run s as t

/-- No label at all is enabled. -/
def Halted (s : S) : Prop := ∀ a, M.step s a = none

/-- A step by each of the labels that is enabled when its turn comes, and whether there was one. -/
def sweep : List A → S → Bool × S
  | [], s => (false, s)
  | a :: as, s =>
    match M.step s a with
    | some t => (true, (sweep as t).2)
    | none => sweep as s

/-- At most `n` rounds. A round is a sweep over the labels `moves`, which wait for nothing, or, if
none of them is enabled, one step by the first enabled label of `late`. -/
def drive (moves late : S → List A) : Nat → S → S
  | 0, s => s
  | n + 1, s =>
    match M.sweep (moves s) s with
    | (true, t) => drive moves late n t
    | (false, _) =>
      match (late s).findSome? (M.step s) with
      | some t => drive moves late n t
      | none => s

/-! ## Runs -/

variable {M}

theorem Run.append {s t u : S} {as bs : List A} (h : M.Run s as t) (h' : M.Run t bs u) :
    M.Run s (as ++ bs) u := by
  induction h with
  | nil => exact h'
  | cons hn _ ih => exact .cons hn (ih h')

/-- What holds at the start and is kept by every step holds after every run. -/
theorem Run.invariant {P : S → Prop} {s t : S} {as : List A} (h : M.Run s as t) (hs : P s)
    (hstep : ∀ s a t, P s → M.Next s a t → P t) : P t := by
  induction h with
  | nil => exact hs
  | cons hn _ ih => exact ih (hstep _ _ _ hs hn)

theorem Reaches.refl (s : S) : M.Reaches s s := ⟨[], .nil s⟩

theorem Reaches.trans {s t u : S} : M.Reaches s t → M.Reaches t u → M.Reaches s u
  | ⟨_, h⟩, ⟨_, h'⟩ => ⟨_, h.append h'⟩

/-- Where no label waits for another, the steps by the labels `as` are a run. -/
theorem run_of_foldlM (hfree : ∀ a b, M.precedes a b = false) {as : List A} {s t : S}
    (h : as.foldlM M.step s = some t) : M.Run s as t := by
  induction as generalizing s with
  | nil =>
    obtain rfl := Option.some.inj h
    exact .nil s
  | cons a as ih =>
    rw [List.foldlM_cons] at h
    obtain ⟨u, hu, h⟩ := Option.bind_eq_some_iff.1 h
    have hready : M.Ready s a := fun b hb => by
      rw [hfree b a] at hb
      cases hb
    exact .cons ⟨hready, hu⟩ (ih h)

/-- A sweep over labels that wait for nothing is a run. -/
theorem reaches_sweep {as : List A} {s : S} (h : ∀ a ∈ as, ∀ b, M.precedes b a = false) :
    M.Reaches s (M.sweep as s).2 := by
  induction as generalizing s with
  | nil => exact .refl s
  | cons a as ih =>
    have hr : M.Ready s a := fun b hb => by
      rw [h a List.mem_cons_self b] at hb
      cases hb
    have ih {s : S} : M.Reaches s (M.sweep as s).2 := ih fun a ha => h a (List.mem_cons_of_mem _ ha)
    simp only [sweep]
    cases hs : M.step s a with
    | none => exact ih
    | some t => exact Reaches.trans ⟨[a], .cons ⟨hr, hs⟩ (.nil t)⟩ ih

/-- Where a sweep does nothing, none of its labels is enabled. -/
theorem step_eq_none_of_sweep {as : List A} {s : S} (h : (M.sweep as s).1 = false) :
    ∀ a ∈ as, M.step s a = none := by
  induction as with
  | nil => exact fun a ha => absurd ha List.not_mem_nil
  | cons a as ih =>
    simp only [sweep] at h
    cases hs : M.step s a with
    | some t => simp [hs] at h
    | none =>
      rw [hs] at h
      intro b hb
      rcases List.mem_cons.1 hb with rfl | hb
      · exact hs
      · exact ih h b hb

/-- Rounds are a run if the labels `moves` wait for nothing and those of `late` for `moves` and for
one another. -/
theorem reaches_drive {moves late : S → List A}
    (hmoves : ∀ s, ∀ a ∈ moves s, ∀ b, M.precedes b a = false)
    (hlate : ∀ s, (∀ a ∈ moves s, M.step s a = none) → ∀ before a after,
      late s = before ++ a :: after → (∀ b ∈ before, M.step s b = none) → M.Ready s a)
    (n : Nat) (s : S) : M.Reaches s (M.drive moves late n s) := by
  induction n generalizing s with
  | zero => exact .refl s
  | succ n ih =>
    have hsweep := M.reaches_sweep (s := s) (hmoves s)
    rw [drive]
    split
    · rename_i t heq
      rw [heq] at hsweep
      exact hsweep.trans (ih t)
    · rename_i t heq
      split
      · rename_i u hfind
        obtain ⟨before, a, after, hlist, hstep, hbefore⟩ := List.findSome?_eq_some_iff.1 hfind
        have hready := hlate s (step_eq_none_of_sweep (congrArg Prod.fst heq)) before a after hlist
          hbefore
        exact Reaches.trans ⟨[a], .cons ⟨hready, hstep⟩ (.nil u)⟩ (ih u)
      · exact .refl s

end Machine

end Lockstep
