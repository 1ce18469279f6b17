import Lockstep.Proofs.Measurement.Workers
import Lockstep.Proofs.Runs

/-!
# Measurements end

On a medium that takes so many steps for each request and no more (`Medium.Measured`), a measurement
of throughput has a bound for the steps that are left (`Throughput.budget`), and each step takes one away
(`Working.budget_lt`). Where nobody can go on, the pool is exhausted and the owner waits for a message, or
all is over (`Working.over_or_waiting`). `Steady.settles` puts this together.
-/

set_option autoImplicit false

namespace Lockstep

open Medium

variable {S I : Type}

/-- `μ` measures the steps that the medium can take, and a request adds `k` to it at most. -/
structure Medium.Measured (M : Medium S I) (μ : S → Nat) (k : Nat) (m : S) : Prop where
  ask : ∀ caller q, μ (M.ask m caller q) ≤ μ m + k
  reply : ∀ caller reply m', M.reply? m caller = some (reply, m') → μ m' ≤ μ m
  step : ∀ i m' handover, M.step m i = some (m', handover) → μ m' < μ m

/-- One step of a caller pays for what it asks of the medium. -/
theorem Medium.sum_lt_of_lt {k work work' left left' : Nat} (hμ : work' ≤ work + k)
    (hlt : left' < left) : work' + (k + 1) * left' < work + (k + 1) * left := by
  have hle := Nat.mul_le_mul_left (k + 1) hlt
  rw [Nat.mul_succ] at hle
  omega

namespace Pool

variable {τ : Type} {p q : Pool τ} {a : Label τ} {es : History τ}

/-- What a call of the owner adds to the steps that are left. -/
def Label.cost (threads : Nat) : Label τ → Nat
  | .schedule _ => 3
  | .start | .startShort _ _ => threads
  | .terminate _ | .drop => 2
  | _ => 0

theorem Effect.work_le (he : Effect p a es q) : q.work ≤ p.work + a.cost p.threads := by
  cases hcall : a.isCall with
  | false => exact Nat.le_add_right_of_le (Nat.le_of_lt (he.work_lt hcall))
  | true =>
    cases he with
    | accept =>
      simp only [work, Queue.toList_push, List.length_append, List.length_singleton, Label.cost]
      omega
    | start hmade =>
      have hle := Label.made_le hmade
      have hcost : a.cost p.threads = p.threads := by
        cases a <;> first | rfl | cases hmade
      simp only [work, hcost, List.map_replicate, List.sum_replicate_nat, Worker.work]
      omega
    | terminate hfree | drop hfree =>
      simp only [work, Pool.terminate, hfree, Owner.work, Label.cost]
      omega
    | refuse | refuseStart | dropAgain => exact Nat.le_add_right _ _
    | close | «return» | take | run | discard | finish | leave => cases hcall

theorem two_mul_running_le (p : Pool τ) : 2 * p.running.length ≤ p.work := by
  have hall (l : List (Worker τ)) :
      2 * (l.filterMap running?).length ≤ (l.map Worker.work).sum := by
    induction l with
    | nil => exact Nat.le_refl _
    | cons x l ih =>
      rw [filterMap_cons_eq, List.length_append, List.map_cons, List.sum_cons]
      cases x <;> simp only [running?, Worker.work, Option.toList_some, Option.toList_none,
        List.length_singleton, List.length_nil] <;> omega
  have hle := hall p.workers
  simp only [running, work]
  omega

end Pool

namespace Throughput

variable {M : Medium S I} {threads messages k : Nat} {μ : S → Nat} {s t : State S} {a : Label I}
  {h : Pool.History Nat} {tasks : List Nat}

/-! ## Every run is finite -/

/-- The steps that the owner has before it, with those that its calls leave to the pool. -/
def Stage.work (threads messages : Nat) : Stage → Nat
  | .register => 4 * messages + (threads + messages + 10) + 2
  | .registering => 4 * messages + (threads + messages + 10) + 1
  | .schedule i => 4 * (messages - i) + (threads + messages + 10)
  | .receive r => messages - r + 9
  | .abandoned _ => 9
  | .terminating _ => 3
  | .stop _ => 2
  | .stopping _ => 1
  | .over _ | .faulted _ | .dead => 0

/-- The steps that are left to the owner and the workers: each that is to run its task asks for a
broadcast first. -/
def left (threads messages : Nat) (s : State S) : Nat :=
  2 * (s.pool.work + s.stage.work threads messages) - s.asked.length

/-- The steps that are left, the medium's included. -/
def budget (μ : S → Nat) (k threads messages : Nat) (s : State S) : Nat :=
  μ s.medium + (k + 1) * left threads messages s

theorem budget_lt_of_left (hμ : μ t.medium ≤ μ s.medium + k)
    (hlt : left threads messages t < left threads messages s) :
    budget μ k threads messages t < budget μ k threads messages s :=
  Medium.sum_lt_of_lt hμ hlt

theorem Working.left_lt_of_order {l : Pool.Label Nat} {next : Stage} {pool : Pool Nat}
    (hw : Working threads messages h tasks s) (ho : Orders messages s a l next)
    (hstep : s.pool.step l = some pool) :
    left threads messages { s with pool, stage := next } < left threads messages s := by
  have hasked := hw.length_asked_le
  have hrunning := s.pool.two_mul_running_le
  have he := Pool.effect_of_step hstep
  have hle := he.work_le
  rw [hw.course.staffed.size] at hle
  have hstage : pool.work + next.work threads messages <
      s.pool.work + s.stage.work threads messages := by
    cases ho with
    | schedule hstage =>
      simp only [hstage, Stage.work, Pool.Label.cost] at hle ⊢
      omega
    | start hstage | startShort hstage | enough hstage | expire hstage | abandon hstage =>
      simp only [hstage, Stage.work, Pool.Label.cost] at hle ⊢
      omega
    | close hstage =>
      have hlt := he.work_lt rfl
      rw [hstage]
      omega
    | «return» hstage =>
      have hlt := he.work_lt rfl
      simp only [hstage, Stage.work]
      omega
  simp only [left]
  omega

/-- Each step is one less to take. -/
theorem Working.budget_lt (hw : Working threads messages h tasks s) (hm : M.Measured μ k s.medium)
    (he : Effect M messages s a t) :
    budget μ k threads messages t < budget μ k threads messages s := by
  have hasked := hw.length_asked_le
  have hrunning := s.pool.two_mul_running_le
  cases he with
  | noRoom hstage =>
    refine budget_lt_of_left (Nat.le_add_right _ _) ?_
    simp only [left, hstage, Stage.work]
    omega
  | register hstage =>
    refine budget_lt_of_left (hm.ask _ _) ?_
    simp only [left, Throughput.ask, hstage, Stage.work]
    omega
  | registered hstage hr | refused hstage hr | died hstage hr =>
    refine budget_lt_of_left (Nat.le_add_right_of_le (hm.reply _ _ _ hr)) ?_
    simp only [left, hstage, Stage.work]
    omega
  | order ho hstep => exact budget_lt_of_left (Nat.le_add_right _ _) (hw.left_lt_of_order ho hstep)
  | receive hstage hlt =>
    refine budget_lt_of_left (Nat.le_add_right _ _) ?_
    simp only [left, hstage, Stage.work]
    omega
  | stop hstage =>
    refine budget_lt_of_left (hm.ask _ _) ?_
    simp only [left, Throughput.ask, hstage, Stage.work]
    omega
  | returned hstage hr =>
    refine budget_lt_of_left (Nat.le_add_right_of_le (hm.reply _ _ _ hr)) ?_
    simp only [left, hstage, Stage.work]
    omega
  | turn hl hstep =>
    refine budget_lt_of_left (Nat.le_add_right _ _) ?_
    have hlt := (Pool.effect_of_step hstep).work_lt (by rcases hl with rfl | rfl | rfl <;> rfl)
    simp only [left]
    omega
  | broadcast hi =>
    refine budget_lt_of_left (hm.ask _ _) ?_
    have hpos : 0 < s.pool.running.length :=
      List.length_pos_of_mem (List.mem_filterMap.2 ⟨_, List.mem_of_getElem? hi, rfl⟩)
    simp only [left, List.length_cons]
    omega
  | finish _ hmem hr hstep =>
    refine budget_lt_of_left (Nat.le_add_right_of_le (hm.reply _ _ _ hr)) ?_
    have hlt := (Pool.effect_of_step hstep).work_lt rfl
    have hlength := List.length_erase_of_mem hmem
    simp only [left]
    omega
  | pass hstep =>
    have hlt := hm.step _ _ _ hstep
    simp only [budget, left]
    omega

/-! ## Who can go on -/

/-- Nothing is left for the workers, and none of them is at work. -/
structure Exhausted (p : Pool Nat) : Prop where
  queue : p.queue.toList = []
  workers : ∀ worker ∈ p.workers, worker = .idle ∨ worker = .left

theorem Exhausted.held_eq_nil {p : Pool Nat} (hp : Exhausted p) : p.held = [] ∧ p.running = [] := by
  unfold Pool.held Pool.running
  rw [List.filterMap_eq_nil_iff, List.filterMap_eq_nil_iff]
  constructor <;>
    · intro worker hmem
      rcases hp.workers worker hmem with rfl | rfl <;> rfl

/-- Where the pool is exhausted all messages were broadcast. -/
theorem Working.perm_of_exhausted {r : Nat} (hw : Working threads messages h tasks s)
    (hstage : s.stage = .receive r) (hexhausted : Exhausted s.pool) :
    tasks.Perm (List.range messages) := by
  have hstands := hw.stands
  rw [hstage] at hstands
  obtain ⟨-, haccepted, hopen, hfree, -⟩ := hstands
  obtain ⟨hheld, hrunning⟩ := hexhausted.held_eq_nil
  have hnone := Pool.filterMap_task?_subperm hw.apart hw.running
  rw [hrunning, List.subperm_nil] at hnone
  have hplaced := hw.course.accepted_perm
  rw [hexhausted.queue, hheld, (hw.course.sound.untouched hopen hfree).2, Queue.toList_empty,
    List.append_nil, List.nil_append, List.nil_append, haccepted] at hplaced
  have hended := hw.course.account.ended
  rw [hrunning, List.nil_append] at hended
  have hbegun := hw.begun
  rw [hnone, List.append_nil] at hbegun
  exact hbegun.trans (hended.symm.trans hplaced.symm)

/-- Where the workers have drained the queue all messages were broadcast. -/
theorem Working.perm_of_drained (hw : Working threads messages h tasks s)
    (hstage : s.stage = .stop .enough ∨ s.stage = .stopping .enough) :
    tasks.Perm (List.range messages) := by
  have hstands : s.pool.workers = [] ∧ h.ended.Perm (List.range messages) := by
    have hstands := hw.stands
    rcases hstage with hstage | hstage <;>
      · rw [hstage] at hstands
        exact ⟨hstands.2.1, hstands.2.2 rfl⟩
  have hbegun := hw.begun
  rw [hw.asked_eq_nil hstands.1, List.filterMap_nil, List.append_nil] at hbegun
  exact hbegun.trans hstands.2

def Stage.awaitsReply : Stage → Bool
  | .registering | .stopping _ => true
  | _ => false

theorem poolStep_eq_none {l : Pool.Label Nat} (hnone : poolStep s l = none) : s.pool.step l = none :=
  Option.map_eq_none_iff.1 hnone

/-- What the owner cannot order the pool cannot do. -/
theorem step_eq_none_of_order {l : Pool.Label Nat} {next : Stage}
    (hnone : ((poolStep s l).bind fun s => some { s with stage := next }) = none) :
    s.pool.step l = none := by
  cases hstep : poolStep s l with
  | none => exact poolStep_eq_none hstep
  | some t =>
    rw [hstep] at hnone
    cases hnone

theorem halted_of_medium (hnone : ∀ i, mediumStep M s i = none) (i : I) :
    M.step s.medium i = none := by
  cases hstep : M.step s.medium i with
  | none => rfl
  | some found =>
    obtain ⟨m, handover⟩ := found
    have hsome := hnone i
    simp only [mediumStep, hstep] at hsome
    cases handover <;> cases hsome

section
variable (hnone : ∀ w, Throughput.work M s w = none)
  (hasked : ∀ w ∈ s.asked, ∃ reply m, M.reply? s.medium (w + 1) = some (reply, m))
include hnone hasked

/-- Who cannot go on has left, or waits for tasks. -/
theorem idle_of_halted {w : Nat} {worker : Worker Nat} (hworker : s.pool.workers[w]? = some worker) :
    worker = .left ∨ worker = .idle ∧ s.pool.queue.toList = [] ∧ s.pool.isOpen = true := by
  have hstuck := hnone w
  simp only [Throughput.work, hworker] at hstuck
  cases worker with
  | left => exact .inl rfl
  | idle =>
    obtain ⟨htake, hleave⟩ := Option.or_eq_none_iff.1 hstuck
    have hempty : s.pool.queue.pop? = none := by
      have htake := poolStep_eq_none htake
      simp only [Pool.step, Pool.take, hworker] at htake
      split at htake
      · cases htake
      · rename_i hpop
        cases hqueue : s.pool.queue.pop? with
        | none => rfl
        | some found => exact absurd hqueue (hpop _ _ rfl)
    have hqueue := Queue.pop?_eq_none_iff.1 hempty
    refine .inr ⟨rfl, hqueue, ?_⟩
    have hleave := poolStep_eq_none hleave
    simp only [Pool.step, Pool.leave, hworker, Queue.isEmpty_iff.2 hqueue, Bool.true_and] at hleave
    simpa using hleave
  | holding task =>
    have hcheck := poolStep_eq_none hstuck
    simp only [Pool.step, Pool.check, hworker] at hcheck
    split at hcheck <;> cases hcheck
  | running task =>
    simp only at hstuck
    split at hstuck
    · rename_i hmem
      obtain ⟨reply, m, hreply⟩ := hasked w hmem
      have hfinish (panicked : Bool) : s.pool.step (.finish w panicked) ≠ none := by
        simp [Pool.step, Pool.finish, hworker]
      rw [hreply] at hstuck
      cases reply <;> exact absurd (poolStep_eq_none hstuck) (hfinish _)
    · cases hstuck

theorem Working.exhausted (hw : Working threads messages h tasks s)
    (hopen : s.pool.isOpen = true) (hfree : s.pool.owner = .free) (hsome : s.pool.workers ≠ []) :
    Exhausted s.pool := by
  have hidle : ∀ worker ∈ s.pool.workers, worker = .idle ∧ s.pool.queue.toList = [] := by
    intro worker hmem
    obtain ⟨w, hworker⟩ := List.mem_iff_getElem?.1 hmem
    rcases idle_of_halted hnone hasked hworker with rfl | ⟨rfl, hqueue, -⟩
    · rcases hw.course.sound.left hmem with hquit | ⟨hclosed, -⟩
      · rw [(hw.course.sound.untouched hopen hfree).1] at hquit
        cases hquit
      · rw [hopen] at hclosed
        cases hclosed
    · exact ⟨rfl, hqueue⟩
  obtain ⟨worker, hmem⟩ := List.exists_mem_of_ne_nil _ hsome
  exact ⟨(hidle worker hmem).2, fun worker hmem => .inl (hidle worker hmem).1⟩

/-- Whom the owner waits for has left. -/
theorem Working.all_left (hw : Working threads messages h tasks s)
    (hjoining : s.pool.owner = .joining) : s.pool.workers.all Pool.hasLeft = true := by
  rw [List.all_eq_true]
  intro worker hmem
  obtain ⟨w, hworker⟩ := List.mem_iff_getElem?.1 hmem
  rcases idle_of_halted hnone hasked hworker with rfl | ⟨-, -, hopen⟩
  · rfl
  · rw [hw.course.sound.joining hjoining] at hopen
    cases hopen

/-- **Where neither the owner nor a worker can go on, the call has ended or waits for a message** that
no worker will send. -/
theorem Working.over_or_waiting (hthreads : 0 < threads)
    (hw : Working threads messages h tasks s) (hmain : Throughput.main M messages s = none)
    (hawaits : s.stage.awaitsReply = true → ∃ reply m, M.reply? s.medium 0 = some (reply, m)) :
    (∃ result, s.stage = .over result) ∨ (∃ f, s.stage = .faulted f) ∨ s.stage = .dead ∨
      ∃ r, s.stage = .receive r ∧ r < messages ∧ s.inbox.items.toList = [] ∧ Exhausted s.pool := by
  have hstands := hw.stands
  unfold Throughput.main at hmain
  cases hstage : s.stage with
  | «over» result => exact .inl ⟨result, rfl⟩
  | faulted f => exact .inr (.inl ⟨f, rfl⟩)
  | dead => exact .inr (.inr (.inl rfl))
  | register =>
    simp only [hstage] at hmain
    split at hmain <;> cases hmain
  | registering =>
    obtain ⟨reply, m, hreply⟩ := hawaits (by rw [hstage]; rfl)
    simp only [hstage, hreply] at hmain
    cases reply <;> cases hmain
  | stopping ending =>
    obtain ⟨reply, m, hreply⟩ := hawaits (by rw [hstage]; rfl)
    simp only [hstage, hreply] at hmain
    cases hmain
  | stop ending =>
    simp only [hstage] at hmain
    cases hmain
  | schedule i =>
    rw [hstage] at hstands
    obtain ⟨-, -, -, hfree, -⟩ := hstands
    simp only [hstage] at hmain
    split at hmain
    all_goals
      have hstep := step_eq_none_of_order hmain
      simp [Pool.step, hfree] at hstep
  | abandoned e =>
    rw [hstage] at hstands
    obtain ⟨-, -, hfree⟩ := hstands
    simp only [hstage] at hmain
    have hstep := step_eq_none_of_order hmain
    simp [Pool.step, hfree] at hstep
  | receive r =>
    rw [hstage] at hstands
    obtain ⟨-, -, hopen, hfree, hlength⟩ := hstands
    simp only [hstage] at hmain
    split at hmain
    · rename_i hlt
      have hempty : s.inbox.receive? = none := by
        cases hreceive : s.inbox.receive? with
        | none => rfl
        | some found =>
          rw [hreceive] at hmain
          cases hmain
      refine .inr (.inr (.inr ⟨r, rfl, hlt, Inbox.receive?_eq_none_iff.1 hempty, ?_⟩))
      exact hw.exhausted hnone hasked hopen hfree
        (List.ne_nil_of_length_pos (hlength ▸ hthreads))
    · have hstep := step_eq_none_of_order hmain
      simp [Pool.step, hfree] at hstep
  | terminating ending =>
    rw [hstage] at hstands
    obtain ⟨-, hbusy, -⟩ := hstands
    simp only [hstage] at hmain
    split at hmain
    · rename_i hclosing
      have hstep := poolStep_eq_none hmain
      simp [Pool.step, hclosing] at hstep
    · rename_i hjoining
      -- all workers have left, so the owner could return
      have hstep := step_eq_none_of_order hmain
      simp [Pool.step, hjoining, hw.all_left hnone hasked hjoining] at hstep
    · rename_i hfree
      exact absurd hfree hbusy

end

/-! ## Runs on a steady medium -/

/-- In the states `Inv`, which the steps allowed by `ok` keep, the medium answers in the end and does
not go on for ever by itself, and a receive may time out where nobody else can go on. -/
structure Steady (M : Medium S I) (threads messages : Nat) (μ : S → Nat) (k : Nat)
    (ok : State S → Label I → Prop) (Inv : State S → Prop) : Prop where
  working : ∀ s, Inv s → ∃ h tasks, Working threads messages h tasks s
  step : ∀ s a t, Inv s → ok s a → Throughput.step M messages s a = some t → Inv t
  measured : ∀ s, Inv s → M.Measured μ k s.medium
  alive : ∀ s, Inv s → s.stage ≠ .dead ∧ ∀ f, s.stage ≠ .faulted f
  unhurried : ∀ s a, a ≠ .expire → ok s a
  /-- A medium that takes no step has answered. -/
  answers : ∀ s, Inv s → (∀ i, M.step s.medium i = none) →
    (∀ w ∈ s.asked, ∃ reply m, M.reply? s.medium (w + 1) = some (reply, m)) ∧
      (s.stage.awaitsReply = true → ∃ reply m, M.reply? s.medium 0 = some (reply, m))
  patient : ∀ s r, Inv s → (∀ i, M.step s.medium i = none) → s.stage = .receive r → r < messages →
    s.inbox.items.toList = [] → Exhausted s.pool → ok s .expire

/-- The measurement has returned. -/
def Returned (s : State S) : Prop := ∃ result, result? s = .ok (some result)

theorem returned_of_over {result : Except MeasureError Nat} (hstage : s.stage = .over result) :
    Returned s := ⟨result, by rw [result?, hstage]⟩

theorem stage_of_result {result : Except MeasureError Nat} (hresult : result? s = .ok (some result)) :
    s.stage = .over result := by
  unfold result? at hresult
  cases hstage : s.stage with
  | «over» other =>
    rw [hstage] at hresult
    cases hresult
    rfl
  | _ =>
    rw [hstage] at hresult
    cases hresult

namespace Steady

variable {ok : State S → Label I → Prop} {Inv : State S → Prop}
  (hs : Steady M threads messages μ k ok Inv) (hthreads : 0 < threads)
include hs hthreads

theorem returned_of_quiet (hinv : Inv s) (hq : (machine M messages).Quiet ok s) : Returned s := by
  obtain ⟨h, tasks, hw⟩ := hs.working s hinv
  have hother (a : Label I) (hne : a ≠ .expire) : Throughput.step M messages s a = none :=
    hq a (hs.unhurried s a hne)
  have hmedium : ∀ i, M.step s.medium i = none :=
    halted_of_medium fun i => hother (.medium i) (by simp)
  have hmain : Throughput.main M messages s = none := hother .main (by simp)
  have hwork (w : Nat) : Throughput.work M s w = none := hother (.work w) (by simp)
  obtain ⟨hasked, hawaits⟩ := hs.answers s hinv hmedium
  obtain ⟨hdead, hfault⟩ := hs.alive s hinv
  rcases hw.over_or_waiting hwork hasked hthreads hmain hawaits with
    ⟨result, hstage⟩ | ⟨f, hstage⟩ | hstage | ⟨r, hstage, hlt, hempty, hexhausted⟩
  · exact returned_of_over hstage
  · exact absurd hstage (hfault f)
  · exact absurd hstage hdead
  · have hexpire : expire messages s = none :=
      hq .expire (hs.patient s r hinv hmedium hstage hlt hempty hexhausted)
    have hstands := hw.stands
    rw [hstage] at hstands
    obtain ⟨-, -, -, hfree, -⟩ := hstands
    simp [expire, hstage, Inbox.receive?_eq_none_iff.2 hempty, hlt, poolStep, Pool.step,
      hfree] at hexpire

/-- **A measurement of throughput comes to an end**, whatever the interleaving. -/
theorem settles (hinv : Inv s) : (machine M messages).Settles ok Returned s := by
  refine Machine.settles_of_measure (budget μ k threads messages) ?_
    (fun s => hs.returned_of_quiet hthreads) hinv
  intro s a t hinv hok hstep
  obtain ⟨h, tasks, hw⟩ := hs.working s hinv
  exact ⟨hs.step s a t hinv hok hstep,
    hw.budget_lt (hs.measured s hinv) (effect_of_step hstep)⟩

omit hthreads in
/-- After a run the owner has failed to start its pool only if the run says so. -/
theorem of_runWhere {as : List (Label I)} (hr : (machine M messages).RunWhere ok s as t)
    (hinv : Inv s) (hnone : s.stage.startError? = none) : Inv t ∧ ∀ e, t.stage.startError? = some e →
      ∃ made reason, .startShort made reason ∈ as ∧ e = .spawn reason := by
  refine hr.invariant (P := fun t => Inv t ∧ ∀ e, t.stage.startError? = some e →
    ∃ made reason, .startShort made reason ∈ as ∧ e = .spawn reason)
      ⟨hinv, fun e he => by rw [hnone] at he; cases he⟩ ?_
  rintro s a t ha ⟨hinv, hshort⟩ hok hstep
  refine ⟨hs.step s a t hinv hok hstep, fun e he => ?_⟩
  obtain ⟨h, tasks, hw⟩ := hs.working s hinv
  rcases hw.startError (effect_of_step hstep) he with herror | ⟨made, reason, rfl, rfl⟩
  · exact hshort e herror
  · exact ⟨made, reason, ha, rfl⟩

end Steady

/-! ## The run that is performed -/

section
variable (hmoves : ∀ m i, i ∉ M.moves m → M.step m i = none)
include hmoves

/-- Where no label that waits for nothing is enabled, no label is but the time-out. -/
theorem ready_of_moves (hnone : ∀ a ∈ moves M s, Throughput.step M messages s a = none) :
    (machine M messages).Ready s .expire := by
  have hmain : Throughput.main M messages s = none := hnone .main (by simp [moves])
  intro a ha
  cases a with
  | expire => cases ha
  | main => exact hmain
  | medium i =>
    by_cases hi : i ∈ M.moves s.medium
    · exact hnone (.medium i) (by simp [moves, hi])
    · show mediumStep M s i = none
      rw [mediumStep, hmoves _ _ hi]
      rfl
  | work w =>
    by_cases hw : w < s.pool.workers.length
    · exact hnone (.work w) (by simp [moves, hw])
    · show Throughput.work M s w = none
      rw [Throughput.work, List.getElem?_eq_none (Nat.le_of_not_lt hw)]
  | startShort made reason =>
    show startShort messages s made reason = none
    unfold startShort
    split
    · rename_i i hstage
      split
      · rfl
      · rename_i hle
        -- the owner could start the pool otherwise
        have hbusy : s.pool.owner ≠ .free := by
          intro hfree
          simp [Throughput.main, hstage, hle, poolStep, Pool.step, hfree] at hmain
        simp [poolStep, Pool.step, hbusy]
    · rfl

theorem reaches_run (fuel : Nat) (m : S) :
    (machine M messages).Reaches (start threads m) (run M messages fuel threads m) := by
  refine Machine.reaches_drive_of_single (fun s a ha b => ?_) (fun s => ready_of_moves hmoves) fuel _
  have hne : a ≠ .expire := by
    rintro rfl
    simp [moves] at ha
  cases b <;> cases a <;> first | rfl | exact absurd rfl hne

end

end Throughput

end Lockstep
