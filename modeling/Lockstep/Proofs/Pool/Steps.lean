import Lockstep.Pool.Basic

/-!
# What a step of a pool does

`Pool.Effect` lists everything that a pool can do in one step, and `Pool.events` is what a step adds
to the history of its tasks. `Pool.effect_of_step` says that all steps are of this kind.

`Course p h q` says that `p` can come to be `q`, and `h` is what happens on the way. What every step
keeps holds after every course (`Course.invariant`).
-/

set_option autoImplicit false

namespace Lockstep.Pool

variable {τ : Type}

/-- What happens to the tasks of a pool, and how many workers it is given. -/
inductive Event (τ : Type) where
  | accepted (task : τ)
  /-- The task was scheduled when the queue was closed. -/
  | refused (task : τ)
  | manned (workers : Nat)
  /-- The task was taken out of the queue, by a worker or by the owner who empties it. -/
  | dequeued (task : τ)
  /-- The task was run, and is over. -/
  | ended (task : τ) (panicked : Bool)
  deriving Repr, DecidableEq

/-- What happened, the oldest event first. -/
abbrev History (τ : Type) := List (Event τ)

namespace History

def accepted (h : History τ) : List τ :=
  h.filterMap fun
    | .accepted task => some task
    | _ => none

def refused (h : History τ) : List τ :=
  h.filterMap fun
    | .refused task => some task
    | _ => none

/-- The tasks that left the queue, in that order. -/
def dequeued (h : History τ) : List τ :=
  h.filterMap fun
    | .dequeued task => some task
    | _ => none

/-- The tasks that were run and are over, be it by a panic. -/
def ended (h : History τ) : List τ :=
  h.filterMap fun
    | .ended task _ => some task
    | _ => none

variable {h h' : History τ}

@[simp] theorem accepted_append : accepted (h ++ h') = h.accepted ++ h'.accepted := by
  simp [accepted]

@[simp] theorem dequeued_append : dequeued (h ++ h') = h.dequeued ++ h'.dequeued := by
  simp [dequeued]

@[simp] theorem ended_append : ended (h ++ h') = h.ended ++ h'.ended := by
  simp [ended]

theorem dequeued_map (tasks : List τ) : dequeued (tasks.map .dequeued) = tasks :=
  List.filterMap_map.trans List.filterMap_some

theorem eq_nil_of_map_dequeued (tasks : List τ) :
    accepted (tasks.map .dequeued) = [] ∧ ended (tasks.map .dequeued) = [] := by
  unfold accepted ended
  simp only [List.filterMap_map, List.filterMap_eq_nil_iff]
  exact ⟨fun _ _ => rfl, fun _ _ => rfl⟩

end History

/-! ## Steps -/

/-- How many workers a start makes. -/
def Label.made? (threads : Nat) : Label τ → Option Nat
  | .start => some threads
  | .startShort made _ => if made < threads then some made else none
  | _ => none

/-- It is a call of the owner, and no step of one. -/
def Label.isCall : Label τ → Bool
  | .schedule _ | .start | .startShort _ _ | .terminate _ | .drop => true
  | _ => false

/-- What a step adds to the history. -/
def events (p : Pool τ) : Label τ → History τ
  | .schedule task => [if p.isOpen then .accepted task else .refused task]
  | .start => if p.isOpen && !p.started then [.manned p.threads] else []
  | .startShort made _ => if p.isOpen && !p.started then [.manned made] else []
  | .return => p.queue.toList.map .dequeued
  | .take _ => (p.queue.pop?.map (·.1)).toList.map .dequeued
  | .finish w panicked =>
    match p.workers[w]? with
    | some (.running task) => [.ended task panicked]
    | _ => []
  | _ => []

/-- What a step does. -/
inductive Effect (p : Pool τ) : Label τ → History τ → Pool τ → Prop
  | accept {task} : p.owner = .free → p.isOpen = true →
      Effect p (.schedule task) [.accepted task] { p with queue := p.queue.push task }
  | refuse {task} : p.owner = .free → p.isOpen = false →
      Effect p (.schedule task) [.refused task] p
  | start {a made} : a.made? p.threads = some made → p.owner = .free → p.isOpen = true →
      p.started = false → Effect p a [.manned made]
        { p with started := true, workers := List.replicate made .idle }
  | refuseStart {a made} : a.made? p.threads = some made → p.owner = .free →
      (p.isOpen = false ∨ p.started = true) → Effect p a [] p
  | terminate {wait} : p.owner = .free → Effect p (.terminate wait) [] (p.terminate wait)
  | drop : p.owner = .free → Effect p .drop [] (p.terminate false)
  /-- The pool is terminated already. -/
  | dropAgain : p.owner = .free → p.isOpen = false → p.workers = [] → Effect p .drop [] p
  | close : p.owner = .closing → Effect p .close [] p.close
  | return : p.owner = .joining → (∀ worker ∈ p.workers, worker = .left) →
      Effect p .return (p.queue.toList.map .dequeued) p.finishTermination
  | take {w task queue} : p.workers[w]? = some .idle → p.queue.pop? = some (task, queue) →
      Effect p (.take w) [.dequeued task] { p.setWorker w (.holding task) with queue }
  | run {w task} : p.workers[w]? = some (.holding task) → p.quit = false →
      Effect p (.check w) [] { p.setWorker w (.running task) with ran := p.ran.push task }
  | discard {w task} : p.workers[w]? = some (.holding task) → p.quit = true →
      Effect p (.check w) [] { p.setWorker w .left with discarded := p.discarded.push task }
  | finish {w task panicked} : p.workers[w]? = some (.running task) →
      Effect p (.finish w panicked) [.ended task panicked] (p.setWorker w .idle)
  | leave {w} : p.workers[w]? = some .idle → p.queue.toList = [] → p.isOpen = false →
      Effect p (.leave w) [] (p.setWorker w .left)

variable {p q r : Pool τ} {a : Label τ}

theorem effect_of_startWith {made : Nat} (ha : a.made? p.threads = some made)
    (hfree : p.owner = .free) :
    Effect p a (if p.isOpen && !p.started then [.manned made] else [])
      ((p.startWith made).toOption.getD p) := by
  simp only [startWith, Bool.not_eq_true', Bool.and_eq_true]
  split
  · rename_i hboth
    rw [if_neg (by simp [hboth.1]), if_neg (by simp [hboth.2])]
    exact .start ha hfree hboth.1 hboth.2
  · rename_i hnot
    cases hopen : p.isOpen with
    | false => simpa using .refuseStart ha hfree (.inl hopen)
    | true =>
      have hstarted : p.started = true := by simpa [hopen] using hnot
      simpa [hstarted] using .refuseStart ha hfree (.inr hstarted)

theorem eq_left_of_all {workers : List (Worker τ)} (hall : workers.all hasLeft = true) :
    ∀ worker ∈ workers, worker = .left := by
  intro worker hw
  have hleft := List.all_eq_true.1 hall worker hw
  cases worker with
  | left => rfl
  | _ => cases hleft

theorem startShort_snd {made : Nat} {reason : String} :
    (p.startShort made reason).2 = (p.startWith made).toOption.getD p := by
  unfold startShort
  cases p.startWith made <;> rfl

theorem effect_of_step (hs : p.step a = some q) : Effect p a (p.events a) q := by
  cases a with
  | schedule task =>
    obtain ⟨hfree, hq⟩ := Option.ite_none_right_eq_some.1 hs
    cases hq
    simp only [schedule, events]
    split
    · rename_i hopen
      exact .accept hfree hopen
    · rename_i hclosed
      exact .refuse hfree (Bool.eq_false_iff.2 hclosed)
  | start =>
    obtain ⟨hfree, hq⟩ := Option.ite_none_right_eq_some.1 hs
    cases hq
    exact effect_of_startWith rfl hfree
  | startShort made reason =>
    obtain ⟨⟨hfree, hlt⟩, hq⟩ := Option.ite_none_right_eq_some.1 hs
    cases hq
    rw [startShort_snd]
    exact effect_of_startWith (if_pos hlt) hfree
  | terminate wait =>
    obtain ⟨hfree, hq⟩ := Option.ite_none_right_eq_some.1 hs
    cases hq
    exact .terminate hfree
  | drop =>
    obtain ⟨hfree, hq⟩ := Option.ite_none_right_eq_some.1 hs
    cases hq
    split
    · exact .drop hfree
    · rename_i hover
      simp only [Bool.or_eq_true, Bool.not_eq_true', not_or, Bool.not_eq_true,
        Bool.not_eq_false, List.isEmpty_iff] at hover
      exact .dropAgain hfree hover.1 hover.2
  | close =>
    obtain ⟨hclosing, hq⟩ := Option.ite_none_right_eq_some.1 hs
    cases hq
    exact .close hclosing
  | «return» =>
    obtain ⟨⟨hjoining, hall⟩, hq⟩ := Option.ite_none_right_eq_some.1 hs
    cases hq
    exact .return hjoining (eq_left_of_all hall)
  | take w =>
    simp only [step, take] at hs
    split at hs
    · rename_i hw hpop
      cases hs
      simpa [events, hpop] using .take hw hpop
    · cases hs
  | check w =>
    simp only [step, check] at hs
    split at hs
    · rename_i task hw
      cases hquit : p.quit with
      | true =>
        rw [hquit, if_pos rfl] at hs
        cases hs
        exact .discard hw hquit
      | false =>
        rw [hquit, if_neg (by decide)] at hs
        cases hs
        exact .run hw hquit
    · cases hs
  | finish w panicked =>
    simp only [step, finish] at hs
    split at hs
    · rename_i task hw
      cases hs
      simpa [events, hw] using .finish hw
    · cases hs
  | leave w =>
    simp only [step, leave] at hs
    split at hs
    · rename_i hw
      obtain ⟨hover, hq⟩ := Option.ite_none_right_eq_some.1 hs
      simp only [Bool.and_eq_true, Bool.not_eq_true', Queue.isEmpty_iff] at hover
      cases hq
      exact .leave hw hover.1 hover.2
    · cases hs

/-! ## Courses -/

/-- What happens in `h` leads from `p` to the pool. -/
inductive Course : Pool τ → History τ → Pool τ → Prop
  | nil (p : Pool τ) : Course p [] p
  | step {p q r : Pool τ} {h : History τ} {a : Label τ} :
      Course p h q → q.step a = some r → Course p (h ++ q.events a) r

variable {h h' : History τ}

theorem Course.trans (hc : Course p h q) (hc' : Course q h' r) : Course p (h ++ h') r := by
  induction hc' with
  | nil => rwa [List.append_nil]
  | step _ hs ih =>
    rw [← List.append_assoc]
    exact ih.step hs

/-- What holds at first and is kept by every step holds after every course. -/
theorem Course.invariant {P : History τ → Pool τ → Prop} (hc : Course p h q) (hp : P [] p)
    (hstep : ∀ {h q a es r}, P h q → Effect q a es r → P (h ++ es) r) : P h q := by
  induction hc with
  | nil => exact hp
  | step _ hs ih => exact hstep ih (effect_of_step hs)

/-- The history and the pool after the steps of these labels. -/
def follow (p : Pool τ) (as : List (Label τ)) : Option (History τ × Pool τ) :=
  as.foldlM (fun c a => (c.2.step a).map fun q => (c.1 ++ c.2.events a, q)) ([], p)

theorem course_of_follow {as : List (Label τ)} (hf : p.follow as = some (h, q)) :
    Course p h q := by
  have hall (as : List (Label τ)) : ∀ {h q c}, Course p h q →
      as.foldlM (fun c a => (c.2.step a).map fun q => (c.1 ++ c.2.events a, q)) (h, q) = some c →
      Course p c.1 c.2 := by
    induction as with
    | nil =>
      intro h q c hc hf
      cases hf
      exact hc
    | cons a as ih =>
      intro h q c hc hf
      rw [List.foldlM_cons] at hf
      obtain ⟨d, hd, hf⟩ := Option.bind_eq_some_iff.1 hf
      obtain ⟨r, hr, rfl⟩ := Option.map_eq_some_iff.1 hd
      exact ih (hc.step hr) hf
  exact hall as (.nil p) hf

end Lockstep.Pool
