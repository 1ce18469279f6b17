import Lockstep.Machine

/-!
# Runs that keep to a condition

`M.RunWhere ok s as t` is a run whose labels are allowed where they are taken: a time-out, say, not
before it is due (`Machine.Due`). `Machine.Settles` says that such runs come to an end whatever is chosen
in them, and `Machine.settles_of_measure` is how one shows it, by a measure that each allowed step
decreases.
-/

set_option autoImplicit false

namespace Lockstep.Machine

variable {S A : Type} {M : Machine S A} {ok : S → A → Prop} {s t u : S} {a : A} {as bs : List A}

/-- The labels `as`, each allowed by `ok` where it is taken, lead from the first state to the second. -/
inductive RunWhere (M : Machine S A) (ok : S → A → Prop) : S → List A → S → Prop
  | nil (s : S) : RunWhere M ok s [] s
  | cons {s t u : S} {a : A} {as : List A} : ok s a → M.step s a = some t →
      RunWhere M ok t as u → RunWhere M ok s (a :: as) u

/-- No allowed label is enabled. -/
def Quiet (M : Machine S A) (ok : S → A → Prop) (s : S) : Prop := ∀ a, ok s a → M.step s a = none

/-- There is a bound for the runs from `s`, they stop only where they are `Done`, and each can be
continued until it is. -/
def Settles (M : Machine S A) (ok : S → A → Prop) (Done : S → Prop) (s : S) : Prop :=
  ∃ bound, ∀ as t, M.RunWhere ok s as t → as.length ≤ bound ∧ (M.Quiet ok t → Done t) ∧
    ∃ bs u, M.RunWhere ok t bs u ∧ Done u

/-- The time-out is due only where the others can come to rest while the machine stays at its stage: what
comes whatever the others do is waited for. All other labels are due at any time. -/
def Due {σ : Type} (M : Machine S A) (timeout : A) (stage : S → σ) (s : S) (a : A) : Prop :=
  a = timeout → ∃ as t, M.RunWhere (fun _ b => b ≠ timeout) s as t ∧
    M.Quiet (fun _ b => b ≠ timeout) t ∧ stage t = stage s

theorem RunWhere.mono {ok' : S → A → Prop} (hr : M.RunWhere ok s as t)
    (himp : ∀ s a, ok s a → ok' s a) : M.RunWhere ok' s as t := by
  induction hr with
  | nil s => exact .nil s
  | cons hok hstep _ ih => exact .cons (himp _ _ hok) hstep ih

/-- Where the labels lead is determined, so what two runs by the same labels keep to, one run does. -/
theorem RunWhere.and {ok' : S → A → Prop} (hr : M.RunWhere ok s as t)
    (hr' : M.RunWhere ok' s as t) : M.RunWhere (fun s a => ok s a ∧ ok' s a) s as t := by
  induction hr with
  | nil s => exact .nil s
  | cons hok hstep _ ih =>
    cases hr' with
    | cons hok' hstep' hrest =>
      obtain rfl := Option.some.inj (hstep.symm.trans hstep')
      exact .cons ⟨hok, hok'⟩ hstep (ih hrest)

/-- Which labels wait for which is no matter for a run that keeps to a condition. -/
theorem RunWhere.of_step_eq {M' : Machine S A} (hr : M.RunWhere ok s as t)
    (heq : ∀ s a, M'.step s a = M.step s a) : M'.RunWhere ok s as t := by
  induction hr with
  | nil s => exact .nil s
  | cons hok hstep _ ih => exact .cons hok ((heq _ _).trans hstep) ih

/-- Where no label waits for another, a run that keeps to a condition is a run of the machine. -/
theorem RunWhere.run (hfree : ∀ a b, M.precedes a b = false) (hr : M.RunWhere ok s as t) :
    M.Run s as t := by
  induction hr with
  | nil s => exact .nil s
  | cons _ hstep _ ih =>
    refine .cons ⟨fun b hb => ?_, hstep⟩ ih
    rw [hfree b] at hb
    cases hb

/-- Where all labels are allowed, the steps by the labels `as` are a run. -/
theorem runWhere_of_foldlM (hok : ∀ s a, ok s a) (h : as.foldlM M.step s = some t) :
    M.RunWhere ok s as t := by
  induction as generalizing s with
  | nil =>
    obtain rfl := Option.some.inj h
    exact .nil s
  | cons a as ih =>
    rw [List.foldlM_cons] at h
    obtain ⟨u, hu, h⟩ := Option.bind_eq_some_iff.1 h
    exact .cons (hok s a) hu (ih h)

/-- What the allowed steps by these labels keep holds after the run. -/
theorem RunWhere.invariant {P : S → Prop} (hr : M.RunWhere ok s as t) (hs : P s)
    (hstep : ∀ s a t, a ∈ as → P s → ok s a → M.step s a = some t → P t) : P t := by
  induction hr with
  | nil => exact hs
  | cons hok hnext _ ih =>
    refine ih (hstep _ _ _ List.mem_cons_self hs hok hnext) fun s a t ha => ?_
    exact hstep s a t (List.mem_cons_of_mem _ ha)

/-- A run of the machine is a run that keeps to what its states allow in it. -/
theorem Run.runWhere {P : S → Prop} (hr : M.Run s as t) (hs : P s)
    (hstep : ∀ s a t, P s → M.Next s a t → ok s a ∧ P t) : M.RunWhere ok s as t := by
  induction hr with
  | nil s => exact .nil s
  | cons hn _ ih =>
    obtain ⟨hok, ht⟩ := hstep _ _ _ hs hn
    exact .cons hok hn.2 (ih ht)

/-- Rounds are a run if the labels `moves` wait for nothing, and the only label that waits for them is
ready when none of them is enabled. -/
theorem reaches_drive_of_single {moves : S → List A}
    (hmoves : ∀ s, ∀ b ∈ moves s, ∀ c, M.precedes c b = false)
    (hready : ∀ s, (∀ b ∈ moves s, M.step s b = none) → M.Ready s a) (n : Nat) (s : S) :
    M.Reaches s (M.drive moves (fun _ => [a]) n s) := by
  refine reaches_drive hmoves (fun s hnone before b after hlist _ => ?_) n s
  cases before with
  | nil =>
    obtain ⟨rfl, -⟩ := List.cons.inj hlist
    exact hready s hnone
  | cons c before =>
    obtain ⟨-, hnil⟩ := List.cons.inj hlist
    cases before <;> cases hnil

/-- What the steps by these labels bring, one after the other. -/
def gather {β : Type} (M : Machine S A) (f : S → A → List β) : S → List A → List β
  | _, [] => []
  | s, a :: as => f s a ++
      match M.step s a with
      | some t => gather M f t as
      | none => []

/-- What each step keeps, with what it brings, holds after the run with all that the run brings. -/
theorem RunWhere.gather {β : Type} {f : S → A → List β} {P : S → List β → Prop} {bs : List β}
    (hr : M.RunWhere ok s as t) (hs : P s bs)
    (hstep : ∀ s a t bs, P s bs → M.step s a = some t → P t (bs ++ f s a)) :
    P t (bs ++ M.gather f s as) := by
  induction hr generalizing bs with
  | nil s =>
    rw [Machine.gather, List.append_nil]
    exact hs
  | cons _ hnext _ ih =>
    rw [Machine.gather, hnext, ← List.append_assoc]
    exact ih (hstep _ _ _ _ hs hnext)

/-! ## Time-outs -/

section
variable {σ : Type} {stage : S → σ} {timeout : A}

theorem due_of_ne (hne : a ≠ timeout) : M.Due timeout stage s a := fun heq => absurd heq hne

/-- A run in which the time-out waits for all else has only time-outs that are due. -/
theorem Run.runWhere_due (hr : M.Run s as t) (hlast : ∀ a, a ≠ timeout → M.precedes a timeout = true) :
    M.RunWhere (M.Due timeout stage) s as t := by
  refine hr.runWhere (P := fun _ => True) trivial fun s a t _ hn => ⟨?_, trivial⟩
  rintro rfl
  exact ⟨[], s, .nil s, fun b hb => hn.1 b (hlast b hb), rfl⟩

variable {Inv : S → Prop} (hstep : ∀ s a t, Inv s → M.step s a = some t → Inv t)
include hstep

theorem not_due (hs : Inv s) (hmoves : ∀ t, Inv t → M.Quiet (fun _ a => a ≠ timeout) t →
    stage t ≠ stage s) : ¬ M.Due timeout stage s timeout := by
  intro hdue
  obtain ⟨as, t, hr, hquiet, hsame⟩ := hdue rfl
  have ht : Inv t := hr.invariant hs fun s a t _ hs _ hnext => hstep s a t hs hnext
  exact hmoves t ht hquiet hsame

/-- Where no time-out is due that could happen, none happens. -/
theorem RunWhere.ne_timeout (hr : M.RunWhere (M.Due timeout stage) s as t) (hs : Inv s)
    (hnot : ∀ s t, Inv s → M.step s timeout = some t → ¬ M.Due timeout stage s timeout) :
    M.RunWhere (fun _ a => a ≠ timeout) s as t := by
  induction hr with
  | nil s => exact .nil s
  | cons hdue hnext _ ih =>
    refine .cons ?_ hnext (ih (hstep _ _ _ hs hnext))
    rintro rfl
    exact hnot _ _ hs hnext hdue

/-- What only a time-out can bring about is not brought about. -/
theorem RunWhere.not_late {Late : S → Prop} (hr : M.RunWhere (M.Due timeout stage) s as t)
    (hs : Inv s)
    (hnot : ∀ s t, Inv s → M.step s timeout = some t → ¬ M.Due timeout stage s timeout)
    (hlate : ∀ s a t, M.step s a = some t → Late t → Late s ∨ a = timeout) (hbefore : ¬ Late s) :
    ¬ Late t := by
  have hr' := hr.ne_timeout hstep hs hnot
  refine hr'.invariant (P := fun s => ¬ Late s) hbefore fun s a t _ hs hne hnext ht => ?_
  exact (hlate s a t hnext ht).elim hs hne

end

/-! ## Runs that come to an end -/

section
variable {Inv Done : S → Prop} (μ : S → Nat)
  (hstep : ∀ s a t, Inv s → ok s a → M.step s a = some t → Inv t ∧ μ t < μ s)
include hstep

theorem RunWhere.length_le (hr : M.RunWhere ok s as t) (hs : Inv s) :
    Inv t ∧ as.length + μ t ≤ μ s := by
  induction hr with
  | nil => exact ⟨hs, Nat.le_of_eq (Nat.zero_add _)⟩
  | cons hok hnext _ ih =>
    obtain ⟨ht, hlt⟩ := hstep _ _ _ hs hok hnext
    obtain ⟨hu, hle⟩ := ih ht
    refine ⟨hu, ?_⟩
    rw [List.length_cons]
    omega

variable (hquiet : ∀ s, Inv s → M.Quiet ok s → Done s)
include hquiet

theorem exists_runWhere (hs : Inv s) : ∃ as t, M.RunWhere ok s as t ∧ Done t := by
  induction hk : μ s using Nat.strongRecOn generalizing s with
  | ind k ih =>
    by_cases hq : M.Quiet ok s
    · exact ⟨[], s, .nil s, hquiet s hs hq⟩
    · obtain ⟨a, hq⟩ := Classical.not_forall.1 hq
      obtain ⟨hok, hne⟩ := Classical.not_imp.1 hq
      obtain ⟨t, hnext⟩ := Option.ne_none_iff_exists'.1 hne
      obtain ⟨ht, hlt⟩ := hstep _ _ _ hs hok hnext
      obtain ⟨as, u, hr, hdone⟩ := ih _ (hk ▸ hlt) ht rfl
      exact ⟨a :: as, u, .cons hok hnext hr, hdone⟩

/-- Where each allowed step keeps `Inv` and decreases `μ`, and only what is `Done` is quiet, all runs
settle. -/
theorem settles_of_measure (hs : Inv s) : M.Settles ok Done s := by
  refine ⟨μ s, fun as t hr => ?_⟩
  obtain ⟨ht, hle⟩ := hr.length_le μ hstep hs
  exact ⟨Nat.le_of_add_right_le hle, hquiet t ht, exists_runWhere μ hstep hquiet ht⟩

end

end Lockstep.Machine
