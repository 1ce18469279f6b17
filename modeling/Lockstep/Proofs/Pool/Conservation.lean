import Mathlib.Data.List.Count
import Lockstep.Proofs.Pool.Steps

/-!
# Where the tasks of a pool are

Tasks leave the queue in the order in which they were accepted, and each that has left it is in the
hands of a worker, was run, or was discarded (`Account`). `Sound` is what else holds of a pool at any
time; above all, a pool whose termination has returned has no workers and an empty queue.
`tasks_conserved` puts the two together.
-/

set_option autoImplicit false

namespace Lockstep.Pool

variable {τ : Type} {p q r : Pool τ} {a : Label τ} {h h' es : History τ} {threads : Nat}

/-- The task that the worker has taken and not looked at the flag for. -/
def held? : Worker τ → Option τ
  | .holding task => some task
  | _ => none

def running? : Worker τ → Option τ
  | .running task => some task
  | _ => none

/-- The tasks in the hands of workers that have not begun them. -/
def held (p : Pool τ) : List τ := p.workers.filterMap held?

/-- The tasks that are being run. -/
def running (p : Pool τ) : List τ := p.workers.filterMap running?

/-! ## One worker -/

theorem filterMap_cons_eq {α β : Type} (f : α → Option β) (x : α) (l : List α) :
    (x :: l).filterMap f = (f x).toList ++ l.filterMap f := by
  cases hfx : f x <;> simp [hfx]

theorem filterMap_set_perm {α β : Type} {l : List α} {w : Nat} {x y : α} (f : α → Option β)
    (hx : l[w]? = some x) :
    ((l.set w y).filterMap f ++ (f x).toList).Perm (l.filterMap f ++ (f y).toList) := by
  induction l generalizing w with
  | nil => cases hx
  | cons z l ih =>
    cases w with
    | zero =>
      cases hx
      rw [List.set_cons_zero, filterMap_cons_eq, filterMap_cons_eq, List.append_assoc,
        List.append_assoc]
      refine List.perm_append_comm.trans ?_
      rw [List.append_assoc]
      refine .trans ?_ List.perm_append_comm
      rw [List.append_assoc]
      exact .append_left _ List.perm_append_comm
    | succ w =>
      rw [List.set_cons_succ, filterMap_cons_eq, filterMap_cons_eq, List.append_assoc,
        List.append_assoc]
      exact (ih hx).append_left _

theorem held_eq_nil (hleft : ∀ worker ∈ p.workers, worker = .left) : p.held = [] :=
  List.filterMap_eq_nil_iff.2 fun worker hw => hleft worker hw ▸ rfl

theorem running_eq_nil (hleft : ∀ worker ∈ p.workers, worker = .left) : p.running = [] :=
  List.filterMap_eq_nil_iff.2 fun worker hw => hleft worker hw ▸ rfl

/-! ## What a step moves -/

/-- How a step moves tasks from one place to another. -/
structure Shift (p : Pool τ) (es : History τ) (q : Pool τ) : Prop where
  order : es.dequeued ++ q.queue.toList = p.queue.toList ++ es.accepted
  placed : (p.held ++ p.ran.toList ++ p.discarded.toList ++ es.dequeued).Perm
    (q.held ++ q.ran.toList ++ q.discarded.toList)
  begun : ∃ tasks, q.ran.toList = p.ran.toList ++ tasks ∧
    (p.running ++ tasks).Perm (q.running ++ es.ended)

theorem shift_of_still (hevents : es.dequeued = [] ∧ es.accepted = [] ∧ es.ended = [])
    (hqueue : q.queue = p.queue) (hheld : q.held = p.held) (hrunning : q.running = p.running)
    (hran : q.ran = p.ran) (hdiscarded : q.discarded = p.discarded) : Shift p es q where
  order := by rw [hevents.1, hevents.2.1, hqueue, List.append_nil, List.nil_append]
  placed := by rw [hevents.1, hheld, hran, hdiscarded, List.append_nil]
  begun := ⟨[], by rw [hran, List.append_nil], by rw [hrunning, hevents.2.2]⟩

/-- A worker, which was `x`, becomes `y`. It begins and drops no more than what it had or took out of
the queue. -/
theorem shift_of_set {w : Nat} {x y : Worker τ} {begun dropped : List τ}
    (hw : p.workers[w]? = some x) (hworkers : q.workers = p.workers.set w y)
    (hqueue : es.dequeued ++ q.queue.toList = p.queue.toList ++ es.accepted)
    (hran : q.ran.toList = p.ran.toList ++ begun)
    (hdiscarded : q.discarded.toList = p.discarded.toList ++ dropped)
    (hheld : (held? x).toList ++ es.dequeued = (held? y).toList ++ begun ++ dropped)
    (hrunning : (running? x).toList ++ begun = (running? y).toList ++ es.ended) :
    Shift p es q := by
  classical
  have hset {β : Type} (f : Worker τ → Option β) := filterMap_set_perm (y := y) f hw
  refine ⟨hqueue, List.perm_iff_count.2 fun task => ?_, begun, hran,
    List.perm_iff_count.2 fun task => ?_⟩
  · have hcount := (hset held?).count_eq task
    have hmoved := congrArg (List.count task) hheld
    unfold held
    rw [hworkers, hran, hdiscarded]
    simp only [List.count_append] at hcount hmoved ⊢
    omega
  · have hcount := (hset running?).count_eq task
    have hmoved := congrArg (List.count task) hrunning
    unfold running
    rw [hworkers]
    simp only [List.count_append] at hcount hmoved ⊢
    omega

theorem Effect.shift (he : Effect p a es q) (hstaff : p.started = false → p.workers = []) :
    Shift p es q := by
  cases he with
  | accept => exact ⟨by simp [History.dequeued, History.accepted], by simp [History.dequeued, held],
      [], by simp, by simp [History.ended, running]⟩
  | start _ _ _ hstarted =>
    have hnone : ∀ worker ∈ p.workers, worker = .left := by simp [hstaff hstarted]
    refine shift_of_still ⟨rfl, rfl, rfl⟩ rfl ?_ ?_ rfl rfl
    · rw [held_eq_nil hnone]
      simp [held, held?]
    · rw [running_eq_nil hnone]
      simp [running, running?]
  | refuse | refuseStart | terminate | drop | dropAgain | close =>
    exact shift_of_still ⟨rfl, rfl, rfl⟩ rfl rfl rfl rfl rfl
  | «return» _ hleft =>
    obtain ⟨haccepted, hended⟩ := History.eq_nil_of_map_dequeued p.queue.toList
    refine ⟨?_, ?_, [], ?_, ?_⟩
    · rw [History.dequeued_map, haccepted]
      rfl
    · rw [History.dequeued_map, held_eq_nil hleft]
      simp [finishTermination, held]
    · simp [finishTermination]
    · rw [hended, running_eq_nil hleft]
      simp [finishTermination, running]
  | take hw hpop =>
    exact shift_of_set hw rfl (by simp [History.dequeued, History.accepted,
      Queue.toList_eq_of_pop? hpop]) (List.append_nil _).symm (List.append_nil _).symm rfl rfl
  | run hw _ =>
    exact shift_of_set hw rfl (List.append_nil _).symm (Queue.toList_push _ _)
      (List.append_nil _).symm rfl rfl
  | discard hw _ =>
    exact shift_of_set hw rfl (List.append_nil _).symm (List.append_nil _).symm
      (Queue.toList_push _ _) rfl rfl
  | finish hw | leave hw =>
    exact shift_of_set hw rfl (List.append_nil _).symm (List.append_nil _).symm
      (List.append_nil _).symm rfl rfl

/-! ## The account -/

/-- What has become of the tasks. -/
structure Account (h : History τ) (p : Pool τ) : Prop where
  order : h.dequeued ++ p.queue.toList = h.accepted
  placed : h.dequeued.Perm (p.held ++ p.ran.toList ++ p.discarded.toList)
  ended : p.ran.toList.Perm (p.running ++ h.ended)

theorem account_fresh (threads : Nat) : Account [] (fresh threads : Pool τ) :=
  ⟨rfl, .refl [], .refl []⟩

theorem Account.step (ha : Account h p) (hs : Shift p es q) : Account (h ++ es) q := by
  obtain ⟨tasks, hran, hbegun⟩ := hs.begun
  refine ⟨?_, ?_, ?_⟩
  · rw [History.dequeued_append, History.accepted_append, ← ha.order, List.append_assoc, hs.order,
      List.append_assoc]
  · rw [History.dequeued_append]
    exact (ha.placed.append_right _).trans hs.placed
  · rw [History.ended_append, hran]
    calc (p.ran.toList ++ tasks).Perm (p.running ++ h.ended ++ tasks) := ha.ended.append_right _
      _ |>.Perm (h.ended ++ (p.running ++ tasks)) := by
        rw [← List.append_assoc]
        exact List.perm_append_comm.append_right _
      _ |>.Perm (h.ended ++ (q.running ++ es.ended)) := hbegun.append_left _
      _ |>.Perm (q.running ++ (h.ended ++ es.ended)) := by
        rw [← List.append_assoc, ← List.append_assoc]
        exact List.perm_append_comm.append_right _

/-! ## What else holds at any time -/

structure Sound (p : Pool τ) : Prop where
  joining : p.owner = .joining → p.isOpen = false
  /-- The flag is set by a termination only. -/
  quit : p.quit = true → p.isOpen = true → p.owner = .closing
  unstarted : p.started = false → p.workers = [] ∧ p.ran = {}
  /-- A worker leaves when it sees the flag, or when nothing will ever be in the queue. -/
  left : .left ∈ p.workers → p.quit = true ∨ p.isOpen = false ∧ p.queue.toList = []
  discarded : p.quit = false → p.isOpen = true → p.discarded = {}
  /-- A termination has returned. -/
  terminated : p.isOpen = false → p.owner = .free → p.workers = [] ∧ p.queue = {}

theorem sound_fresh (threads : Nat) : Sound (fresh threads : Pool τ) where
  joining := nofun
  quit := nofun
  unstarted _ := ⟨rfl, rfl⟩
  left := nofun
  discarded _ _ := rfl
  terminated := nofun

/-- Before its first termination a pool has discarded nothing. -/
theorem Sound.untouched (hs : Sound p) (hopen : p.isOpen = true) (hfree : p.owner = .free) :
    p.quit = false ∧ p.discarded = {} := by
  have hquit : p.quit = false := by
    rw [Bool.eq_false_iff]
    intro hquit
    rw [hs.quit hquit hopen] at hfree
    cases hfree
  exact ⟨hquit, hs.discarded hquit hopen⟩

section
variable (hs : Sound p) (he : Effect p a es q)
include hs he

theorem Sound.joining_step (hjoining : q.owner = .joining) : q.isOpen = false := by
  cases he with
  | terminate | drop | «return» => cases hjoining
  | close => rfl
  | _ => exact hs.joining hjoining

theorem Sound.quit_step (hquit : q.quit = true) (hopen : q.isOpen = true) : q.owner = .closing := by
  cases he with
  | terminate | drop => rfl
  | close => cases hopen
  | «return» hjoining =>
    have hclosed := hs.joining hjoining
    rw [show p.isOpen = true from hopen] at hclosed
    cases hclosed
  | _ => exact hs.quit hquit hopen

theorem Sound.unstarted_step (hstarted : q.started = false) : q.workers = [] ∧ q.ran = {} := by
  cases he with
  | start => cases hstarted
  | «return» => exact ⟨rfl, (hs.unstarted hstarted).2⟩
  | take hw | run hw | discard hw | finish hw | leave hw =>
    rw [(hs.unstarted hstarted).1] at hw
    cases hw
  | _ => exact hs.unstarted hstarted

theorem Sound.left_step (hleft : .left ∈ q.workers) :
    q.quit = true ∨ q.isOpen = false ∧ q.queue.toList = [] := by
  cases he with
  | accept hfree hopen =>
    rcases hs.left hleft with hquit | ⟨hclosed, -⟩
    · exact .inl hquit
    · rw [hopen] at hclosed
      cases hclosed
  | start => simp at hleft
  | terminate =>
    refine (hs.left hleft).imp_left fun hquit => ?_
    simp [Pool.terminate, hquit]
  | drop => exact .inl (by simp [Pool.terminate])
  | close => exact (hs.left hleft).imp_right fun hover => ⟨rfl, hover.2⟩
  | «return» => cases hleft
  | @take w task queue hw hpop =>
    rcases List.mem_or_eq_of_mem_set hleft with hleft | hleft
    · refine (hs.left hleft).imp_right fun hover => ?_
      rw [Queue.toList_eq_of_pop? hpop] at hover
      cases hover.2
    · cases hleft
  | run | finish =>
    rcases List.mem_or_eq_of_mem_set hleft with hleft | hleft
    · exact hs.left hleft
    · cases hleft
  | discard _ hquit => exact .inl hquit
  | leave _ hempty hclosed => exact .inr ⟨hclosed, hempty⟩
  | _ => exact hs.left hleft

theorem Sound.discarded_step (hquit : q.quit = false) (hopen : q.isOpen = true) :
    q.discarded = {} := by
  cases he with
  | terminate | drop => exact hs.discarded (Bool.or_eq_false_iff.1 hquit).1 hopen
  | close => cases hopen
  | «return» hjoining =>
    have hclosed := hs.joining hjoining
    rw [show p.isOpen = true from hopen] at hclosed
    cases hclosed
  | discard _ hset =>
    rw [show p.quit = false from hquit] at hset
    cases hset
  | _ => exact hs.discarded hquit hopen

theorem Sound.terminated_step (hclosed : q.isOpen = false) (hfree : q.owner = .free) :
    q.workers = [] ∧ q.queue = {} := by
  cases he with
  | accept _ hopen | start _ _ hopen =>
    rw [show p.isOpen = false from hclosed] at hopen
    cases hopen
  | terminate | drop | close => cases hfree
  | «return» => exact ⟨rfl, rfl⟩
  | take hw | run hw | discard hw | finish hw | leave hw =>
    rw [(hs.terminated hclosed hfree).1] at hw
    cases hw
  | _ => exact hs.terminated hclosed hfree

theorem Sound.step : Sound q :=
  ⟨hs.joining_step he, hs.quit_step he, hs.unstarted_step he, hs.left_step he,
    hs.discarded_step he, hs.terminated_step he⟩

end

theorem Course.sound (hc : Course (fresh threads) h p) : Sound p :=
  hc.invariant (P := fun _ p => Sound p) (sound_fresh threads) fun hs he => hs.step he

theorem Course.account (hc : Course (fresh threads) h p) : Account h p := by
  induction hc with
  | nil => exact account_fresh threads
  | step hc hs ih =>
    exact ih.step ((effect_of_step hs).shift fun hstarted => (hc.sound.unstarted hstarted).1)

/-! ## After a termination -/

/-- The pool accepts nothing, holds nothing and has nobody to run it. -/
structure Terminated (p : Pool τ) : Prop where
  closed : p.isOpen = false
  workers : p.workers = []
  queue : p.queue = {}

/-- What a terminated pool does changes nothing of it but the flag, which nobody looks at any more. -/
theorem still_of_terminated (hp : Terminated p) (he : Effect p a es q) :
    q = { p with quit := q.quit, owner := q.owner } ∧ ∀ e ∈ es, ∃ task, e = .refused task := by
  obtain ⟨hclosed, hworkers, hqueue⟩ := hp
  cases he with
  | accept _ hopen | start _ _ hopen =>
    rw [hclosed] at hopen
    cases hopen
  | refuse => exact ⟨rfl, fun e he => ⟨_, List.mem_singleton.1 he⟩⟩
  | close => exact ⟨by simp [Pool.close, hclosed], nofun⟩
  | «return» =>
    exact ⟨by simp [finishTermination, hworkers, hqueue, Queue.pushAll], by simp [hqueue]⟩
  | take hw | run hw | discard hw | finish hw | leave hw =>
    rw [hworkers] at hw
    cases hw
  | _ => exact ⟨rfl, nofun⟩

theorem Course.of_terminated (hc : Course p h q) (hp : Terminated p) :
    q = { p with quit := q.quit, owner := q.owner } ∧ ∀ e ∈ h, ∃ task, e = .refused task := by
  refine hc.invariant (P := fun h q => q = { p with quit := q.quit, owner := q.owner } ∧
    ∀ e ∈ h, ∃ task, e = .refused task) ⟨rfl, nofun⟩ ?_
  rintro h q a es r ⟨hq, hh⟩ he
  have hover : Terminated q := by
    rw [hq]
    exact ⟨hp.closed, hp.workers, hp.queue⟩
  obtain ⟨hr, hes⟩ := still_of_terminated hover he
  refine ⟨?_, fun e he => (List.mem_append.1 he).elim (hh e) (hes e)⟩
  rw [hr, hq]

theorem ended_eq_nil_of_refused (hh : ∀ e ∈ h, ∃ task, e = .refused task) : h.ended = [] := by
  refine List.filterMap_eq_nil_iff.2 fun e he => ?_
  obtain ⟨task, rfl⟩ := hh e he
  rfl

/-! ## Conservation -/

theorem Course.accepted_perm (hc : Course (fresh threads) h p) :
    h.accepted.Perm (p.queue.toList ++ p.held ++ p.ran.toList ++ p.discarded.toList) := by
  obtain ⟨horder, hplaced, -⟩ := hc.account
  rw [← horder]
  exact List.perm_append_comm.trans (by simpa using hplaced.append_left p.queue.toList)

/-- Once a termination has returned, the tasks that were begun are over. -/
theorem Course.of_returned (hc : Course (fresh threads) h p) (hclosed : p.isOpen = false)
    (hfree : p.owner = .free) : Terminated p ∧ p.ran.toList.Perm h.ended ∧
      h.accepted.Perm (h.ended ++ p.discarded.toList) := by
  obtain ⟨hworkers, hqueue⟩ := hc.sound.terminated hclosed hfree
  have hnone : ∀ worker ∈ p.workers, worker = .left := by simp [hworkers]
  have hended := hc.account.ended
  have haccepted := hc.accepted_perm
  rw [running_eq_nil hnone, List.nil_append] at hended
  rw [hqueue, held_eq_nil hnone] at haccepted
  exact ⟨⟨hclosed, hworkers, hqueue⟩, hended, haccepted.trans (hended.append_right _)⟩

/-- Where the tasks of a pool are, when `h` has happened to it. -/
structure Conserved (h : History τ) (p : Pool τ) : Prop where
  /-- Each accepted task waits in the queue, is in the hands of a worker, was begun, or was
  discarded. -/
  placed : h.accepted.Perm (p.queue.toList ++ p.held ++ p.ran.toList ++ p.discarded.toList)
  /-- A task that was begun is being run, or is over. -/
  begun : p.ran.toList.Perm (p.running ++ h.ended)
  /-- If no two tasks are the same, each is in one place, once, and a refused one in none. -/
  apart : (h.accepted ++ h.refused).Nodup →
    (p.queue.toList ++ p.held ++ p.ran.toList ++ p.discarded.toList ++ h.refused).Nodup
  pending : p.pending + h.dequeued.length = h.accepted.length
  /-- Once a termination has returned, each accepted task is over or was discarded, and nothing is
  ever run again. -/
  terminated : p.isOpen = false → p.owner = .free →
    h.accepted.Perm (h.ended ++ p.discarded.toList) ∧ p.pending = 0 ∧ p.workers = [] ∧
      ∀ h' q, Course p h' q → q.ran = p.ran ∧ q.discarded = p.discarded ∧ h'.ended = []

/-- **No task of a pool is lost, and none is run twice.** -/
theorem tasks_conserved (hc : Course (fresh threads) h p) : Conserved h p where
  placed := hc.accepted_perm
  begun := hc.account.ended
  apart hnodup := ((hc.accepted_perm.append_right _).nodup_iff).1 hnodup
  pending := by
    rw [← hc.account.order, List.length_append, Nat.add_comm]
    rfl
  terminated hclosed hfree := by
    obtain ⟨hover, -, haccepted⟩ := hc.of_returned hclosed hfree
    refine ⟨haccepted, by simp [pending, hover.queue], hover.workers, fun h' q hc' => ?_⟩
    obtain ⟨hq, hh⟩ := hc'.of_terminated hover
    rw [hq]
    exact ⟨rfl, rfl, ended_eq_nil_of_refused hh⟩

/-- Two workers; one of three tasks is run and panics, one is in the hands of a worker when the pool is
told to quit, one is in the queue, and a fourth is refused. -/
theorem one_run_two_discarded :
    let labels : List (Label Nat) :=
      [.schedule 0, .schedule 1, .schedule 2, .start, .take 0, .check 0, .take 1, .terminate false,
        .close, .check 1, .finish 0 true, .take 0, .check 0, .return, .schedule 3]
    ∃ h p, (fresh 2).follow labels = some (h, p) ∧ Course (fresh 2) h p ∧
      h.refused = [3] ∧ p.discarded.toList = [1, 2] ∧ h.accepted.Perm (h.ended ++ [1, 2]) := by
  intro labels
  have hend : ((fresh 2).follow labels).map (fun c => (c.1.refused, c.2.discarded.toList,
      c.2.isOpen, c.2.owner)) = some ([3], [1, 2], false, .free) := by
    decide +kernel
  obtain ⟨⟨h, p⟩, hrun, hends⟩ := Option.map_eq_some_iff.1 hend
  simp only [Prod.mk.injEq] at hends
  obtain ⟨hrefused, hdiscarded, hclosed, hfree⟩ := hends
  have hc := course_of_follow hrun
  have hplaced := ((tasks_conserved hc).terminated hclosed hfree).1
  rw [hdiscarded] at hplaced
  exact ⟨h, p, hrun, hc, hrefused, hdiscarded, hplaced⟩

end Lockstep.Pool
