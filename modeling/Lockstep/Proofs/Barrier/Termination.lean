import Lockstep.Proofs.Barrier.Steps
import Lockstep.Proofs.Sums

/-!
# How long a run can be

Every call and every wait looks at its condition, sleeps and returns; it looks again only after a
wake-up for no reason, or after one that somebody else's step has paid for. `Threads.work` bounds
the steps that are left: each step but a wake-up makes it smaller (`Effect.work_lt`), so a run is at
most as long as the work at its start and its wake-ups allow (`length_le_of_run`).
-/

set_option autoImplicit false

namespace Lockstep.Barrier

variable {ε : Type}

/-- The steps until somebody sleeps. -/
def Stage.work : Stage → Nat
  | .awake => 2
  | .holding => 1
  | .asleep => 0

/-- The steps of one call: it arrives, wakes the orchestrator, sleeps and returns. -/
def Op.work : Op ε → Nat
  | .syncWait _ _ => 6
  | _ => 3

/-- The steps of all operations. -/
def workOf (ops : List (Op ε)) : Nat := (ops.map fun op => op.work * op.calls).sum

def Thread.work (th : Thread ε) : Nat :=
  match th.blocked with
  | none => workOf th.todo
  | some b => 1 + b.stage.work + workOf (Op.after th.todo)

/-- A bound for the steps that are left, wake-ups for no reason apart. A completed phase wakes every
thread. -/
def Threads.work (s : Threads ε) : Nat :=
  (s.threads.map Thread.work).sum + s.orchestrator.left * (2 * s.threads.length + 3) +
    s.orchestrator.stage.work

/-! ## One thread -/

variable {th : Thread ε}

theorem Stage.work_notified_le (stage : Stage) : stage.notified.work ≤ stage.work + 2 := by
  cases stage <;> simp [Stage.notified, Stage.work]

theorem workOf_after (op : Op ε) (ops : List (Op ε)) :
    workOf (Op.after (op :: ops)) + op.work = workOf (op :: ops) := by
  rcases op with _ | ⟨timed, _ | more⟩ | _ <;> simp [Op.after, workOf, Op.work, Op.calls] <;> omega

theorem workOf_tail_le (ops : List (Op ε)) : workOf ops.tail ≤ workOf (Op.after ops) := by
  cases ops with
  | nil => exact Nat.le_refl _
  | cons op ops => rcases op with _ | ⟨timed, _ | more⟩ | _ <;> simp [Op.after, workOf]

theorem Thread.work_notified_le (th : Thread ε) : th.notified.work ≤ th.work + 2 := by
  cases hb : th.blocked with
  | none => simp [Thread.work, Thread.notified, hb]
  | some b =>
    have := b.stage.work_notified_le
    simp only [Thread.work, Thread.notified, hb, Option.map_some]
    omega

theorem Thread.work_synced (th : Thread ε) : th.synced.work = workOf (Op.after th.todo) := rfl

theorem Thread.work_fail_le (th : Thread ε) (e : SyncError) :
    (th.fail e).work ≤ workOf (Op.after th.todo) :=
  workOf_tail_le th.todo

theorem Thread.work_of_todo {op : Op ε} {ops : List (Op ε)} (hb : th.blocked = none)
    (hop : th.todo = op :: ops) : th.work = workOf (Op.after th.todo) + op.work := by
  rw [Thread.work, hb, hop, workOf_after]

theorem Thread.work_of_blocked {b : Blocked} (hb : th.blocked = some b) :
    th.work = 1 + b.stage.work + workOf (Op.after th.todo) := by
  rw [Thread.work, hb]

namespace Threads

/-- A wake-up for no reason. -/
def Label.isWakeup : Label → Bool
  | .wake _ | .wakeOrchestrator => true
  | _ => false

variable {s t : Threads ε} {a : Label} {as : List Label} {p : Nat} {th' : Thread ε}
  {es : History ε}

/-! ## All threads -/

theorem work_lt_of_set {k : Nat} (hth : s.threads[p]? = some th)
    (hs : t.threads = s.threads.set p th') (ho : t.orchestrator = s.orchestrator)
    (hlt : th'.work < th.work + k) : t.work < s.work + k := by
  have := sum_map_set (y := th') Thread.work hth
  rw [work, work, ho, hs, List.length_set]
  omega

theorem work_notifyIfComplete_le (s : Threads ε) : s.notifyIfComplete.work ≤ s.work + 2 := by
  rw [work, work, notifyIfComplete_threads, notifyIfComplete_left, notifyIfComplete_stage]
  have := s.orchestrator.stage.work_notified_le
  split <;> omega

/-- An arrival pays for the orchestrator that it may wake. -/
theorem work_arrive_lt {b : Barrier ε} (hth : s.threads[p]? = some th)
    (hlt : th'.work + 2 < th.work) :
    (notifyIfComplete ({ s with barrier := b }.setThread p th')).work < s.work := by
  have hset := sum_map_set (y := th') Thread.work hth
  have hle := work_notifyIfComplete_le ({ s with barrier := b }.setThread p th')
  have hwork : ({ s with barrier := b }.setThread p th').work + th.work = s.work + th'.work := by
    simp only [work, setThread_threads, setThread_orchestrator, List.length_set]
    omega
  omega

/-! ## Steps -/

/-- The wait that returns pays for the threads it wakes. -/
theorem work_completed_lt (hleft : s.orchestrator.left ≠ 0) : s.completed.work < s.work := by
  have hthreads (l : List (Thread ε)) :
      ((l.map Thread.notified).map Thread.work).sum ≤ (l.map Thread.work).sum + 2 * l.length := by
    induction l with
    | nil => exact Nat.le_refl _
    | cons th l ih =>
      have hle := th.work_notified_le
      simp only [List.map_cons, List.sum_cons, List.length_cons]
      omega
  have := hthreads s.threads
  obtain ⟨left, hleft⟩ := Nat.exists_eq_succ_of_ne_zero hleft
  simp only [work, completed_threads, completed_orchestrator, hleft, List.length_map, Stage.work,
    Nat.succ_sub_one, Nat.succ_mul]
  omega

theorem Effect.work_lt (he : Effect s a es t) : t.work < s.work + if a.isWakeup then 3 else 0 := by
  cases he with
  | look hth hb hstage | sleep hth hb hstage | wake hth hb hstage =>
    refine work_lt_of_set hth rfl rfl ?_
    rw [Thread.work_of_blocked hb, Thread.work_of_blocked rfl, hstage]
    simp [Stage.work, Label.isWakeup, Nat.add_right_comm]
  | resume hth hb hl hlt ha =>
    refine Nat.lt_of_lt_of_le (work_lt_of_set (k := 0) hth rfl rfl ?_) (Nat.le_add_right _ _)
    rw [Thread.work_of_blocked hb, Thread.work_synced]
    omega
  | @late p th b hth hb hl hle hstage htimed =>
    refine work_lt_of_set hth rfl rfl ?_
    have := th.work_fail_le (.timedOut b.reached)
    rw [Thread.work_of_blocked hb]
    omega
  | @refused p th op ops e hth hb hop hl hsync hs =>
    refine work_lt_of_set hth rfl rfl ?_
    have := th.work_fail_le e
    rw [Thread.work_of_todo hb hop]
    rcases hsync with rfl | ⟨timed, more, rfl⟩ <;> simp only [Op.work] <;> omega
  | sync hth hb hop hl hs =>
    refine work_arrive_lt hth ?_
    rw [Thread.work_of_todo hb hop, Thread.work_synced]
    exact Nat.lt_succ_self _
  | syncWait hth hb hop hl hs =>
    refine work_arrive_lt hth ?_
    rw [Thread.work_of_todo hb hop, Thread.work_of_blocked rfl]
    simp only [Op.work, Stage.work]
    omega
  | exit hth hb hop hl hs =>
    refine work_arrive_lt hth ?_
    rw [Thread.work_of_todo hb hop, Thread.work, hb]
    simp [workOf, Op.work]
  | complete hleft hl hc ha =>
    have := work_completed_lt hleft
    omega
  | conductLook hleft hstage | conductSleep hleft hstage | wakeOrchestrator hstage =>
    simp [work, hstage, Stage.work, Label.isWakeup]
  | giveUp hleft htimed hstage =>
    have : 2 * s.threads.length + 3 ≤ s.orchestrator.left * (2 * s.threads.length + 3) :=
      Nat.le_mul_of_pos_left _ (Nat.pos_of_ne_zero hleft)
    simp only [work, Stage.work, hstage]
    omega

/-- **Every run is finite**, wake-ups for no reason apart, whenever time-outs expire. -/
theorem length_le_of_run (hr : (hastyMachine ε).Run s as t) :
    as.length + t.work ≤ s.work + 3 * as.countP Label.isWakeup := by
  induction hr with
  | nil s => simp
  | @cons s t u a as hnext _ ih =>
    obtain ⟨es, he⟩ := effect_of_step hnext.2
    have hlt := he.work_lt
    rw [List.length_cons, List.countP_cons]
    cases ha : a.isWakeup <;> simp only [ha] at hlt ⊢ <;> simp at hlt ⊢ <;> omega

end Threads

end Lockstep.Barrier
