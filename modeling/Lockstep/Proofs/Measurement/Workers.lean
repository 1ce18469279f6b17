import Mathlib.Data.List.Perm.Subperm
import Lockstep.Proofs.Measurement.Steps
import Lockstep.Proofs.Pool.Termination

/-!
# The pool of a throughput measurement

`Throughput.Working threads messages h tasks s` holds of a measurement on any medium: `h` has happened
to its pool, and `tasks` are the numbers of the messages that were broadcast so far, in that order.
`Stands` is what the pool has come to where the owner stands. A step asks for one broadcast more or for
none (`Working.step`), and never for one that was asked for before (`Working.subperm`).
-/

set_option autoImplicit false

namespace Lockstep

namespace Pool

variable {τ : Type} {p q : Pool τ} {a : Label τ} {es : History τ} {w : Nat} {i : τ}

/-! ## Single workers -/

/-- The task that a worker is running. -/
def task? (p : Pool τ) (w : Nat) : Option τ := p.workers[w]?.bind running?

/-- The worker whose step it is. -/
def Label.worker? : Label τ → Option Nat
  | .take w | .check w | .finish w _ | .leave w => some w
  | _ => none

theorem task?_eq_some_iff : p.task? w = some i ↔ p.workers[w]? = some (.running i) := by
  unfold task?
  constructor
  · intro h
    obtain ⟨worker, hw, hrunning⟩ := Option.bind_eq_some_iff.1 h
    cases worker <;> cases hrunning
    exact hw
  · intro h
    rw [h]
    rfl

theorem running_eq_filterMap (p : Pool τ) :
    p.running = (List.range p.workers.length).filterMap p.task? := by
  have hall : ∀ l : List (Worker τ), l.filterMap running? =
      (List.range l.length).filterMap fun w => l[w]?.bind running? := by
    intro l
    induction l with
    | nil => rfl
    | cons x l ih =>
      rw [filterMap_cons_eq, List.length_cons, List.range_succ_eq_map, filterMap_cons_eq,
        List.filterMap_map, ih]
      rfl
  exact hall p.workers

/-- Workers that are each running something are running some of all that is run. -/
theorem filterMap_task?_subperm {ws : List Nat} (hnodup : ws.Nodup)
    (hall : ∀ w ∈ ws, (p.task? w).isSome = true) : (ws.filterMap p.task?).Subperm p.running := by
  have hsub : ws ⊆ List.range p.workers.length := by
    intro w hw
    obtain ⟨i, hi⟩ := Option.isSome_iff_exists.1 (hall w hw)
    rw [List.mem_range]
    exact (List.getElem?_eq_some_iff.1 (task?_eq_some_iff.1 hi)).1
  obtain ⟨l, hperm, hsublist⟩ := List.subperm_of_subset hnodup hsub
  rw [running_eq_filterMap]
  exact ⟨_, hperm.filterMap _, hsublist.filterMap _⟩

/-- A step of a worker is a step of nobody else. -/
theorem Effect.of_worker (he : Effect p a es q) (ha : a.worker? = some w) :
    (∃ x y, p.workers[w]? = some x ∧ q.workers = p.workers.set w y) ∧ q.isOpen = p.isOpen ∧
      q.owner = p.owner ∧ es.accepted = [] := by
  cases he with
  | take hw | run hw | discard hw | finish hw | leave hw =>
    cases ha
    exact ⟨⟨_, _, hw, rfl⟩, rfl, rfl, rfl⟩
  | start hmade | refuseStart hmade => cases a <;> cases ha <;> cases hmade
  | _ => cases ha

/-- Who is running a task goes on with it until it is over. -/
theorem Effect.task?_eq (he : Effect p a es q) (hs : Sound p) (hw : p.task? w = some i)
    (hgoes : ∀ panicked, a ≠ .finish w panicked) : q.task? w = some i := by
  rw [task?_eq_some_iff] at hw ⊢
  have hother {v : Nat} {x y : Worker τ} (hv : p.workers[v]? = some x)
      (hx : ∀ i, x ≠ .running i) : (p.workers.set v y)[w]? = some (.running i) := by
    have hne : v ≠ w := by
      rintro rfl
      rw [hv] at hw
      exact hx i (Option.some.inj hw)
    rw [List.getElem?_set_ne hne]
    exact hw
  cases he with
  | start _ _ _ hstarted =>
    rw [(hs.unstarted hstarted).1] at hw
    cases hw
  | «return» _ hleft =>
    cases hleft _ (List.mem_of_getElem? hw)
  | take hv | leave hv => exact hother hv nofun
  | run hv | discard hv => exact hother hv nofun
  | @finish v _ panicked hv =>
    have hne : v ≠ w := by
      rintro rfl
      exact hgoes panicked rfl
    exact (List.getElem?_set_ne hne).trans hw
  | _ => exact hw

theorem Effect.ended_eq_nil (he : Effect p a es q) (hgoes : ∀ w panicked, a ≠ .finish w panicked) :
    es.ended = [] := by
  cases he with
  | finish => exact absurd rfl (hgoes _ _)
  | «return» => exact (History.eq_nil_of_map_dequeued _).2
  | _ => rfl

end Pool

namespace Throughput

variable {S I : Type} {M : Medium S I} {threads messages : Nat} {h es : Pool.History Nat}
  {p q : Pool Nat} {l : Pool.Label Nat} {s t : State S} {a : Label I} {next : Stage}
  {tasks : List Nat} {w i : Nat}

/-! ## The pool, as the owner has left it -/

/-- The first `i` tasks are scheduled in a pool that is not started. -/
structure Collecting (i : Nat) (h : Pool.History Nat) (p : Pool Nat) : Prop where
  accepted : h.accepted = List.range i
  isOpen : p.isOpen = true
  free : p.owner = .free
  started : p.started = false

def Stands (threads messages : Nat) (h : Pool.History Nat) (p : Pool Nat) : Stage → Prop
  | .register | .registering => Collecting 0 h p
  | .schedule i => i ≤ messages ∧ Collecting i h p
  | .receive r => r ≤ messages ∧ h.accepted = List.range messages ∧ p.isOpen = true ∧
      p.owner = .free ∧ p.workers.length = threads
  | .abandoned _ => h.accepted = List.range messages ∧ p.isOpen = true ∧ p.owner = .free
  | .terminating ending => h.accepted = List.range messages ∧ p.owner ≠ .free ∧
      (ending = .enough → Pool.Draining p ∨ Pool.Terminated p ∧ p.discarded = {})
  | .stop ending | .stopping ending => h.accepted = List.range messages ∧ p.workers = [] ∧
      (ending = .enough → h.ended.Perm (List.range messages))
  | .over _ | .faulted _ | .dead => h.accepted.length ≤ messages ∧ p.workers = []

theorem Stands.length_accepted_le {stage : Stage} (hstands : Stands threads messages h p stage) :
    h.accepted.length ≤ messages := by
  have hrange {i : Nat} (haccepted : h.accepted = List.range i) : h.accepted.length = i := by
    rw [haccepted, List.length_range]
  cases stage with
  | register | registering =>
    exact Nat.le_trans (Nat.le_of_eq (hrange hstands.accepted)) (Nat.zero_le _)
  | schedule i => exact Nat.le_trans (Nat.le_of_eq (hrange hstands.2.accepted)) hstands.1
  | receive r => exact Nat.le_of_eq (hrange hstands.2.1)
  | abandoned | terminating | stop | stopping => exact Nat.le_of_eq (hrange hstands.1)
  | «over» | faulted | dead => exact hstands.1

theorem Collecting.workers_eq (hcollecting : Collecting i h p) (hs : Pool.Sound p) :
    p.workers = [] := (hs.unstarted hcollecting.started).1

/-- Where the owner stands does not change when a worker goes on. -/
theorem Stands.turn {stage : Stage} (hstands : Stands threads messages h p stage)
    (hs : Pool.Sound p) (he : Pool.Effect p l es q) (hl : l.worker? = some w) :
    Stands threads messages (h ++ es) q stage := by
  obtain ⟨⟨x, y, hx, hworkers⟩, hopen, howner, haccepted⟩ := he.of_worker hl
  have hsome : p.workers ≠ [] := by
    intro hnil
    rw [hnil] at hx
    cases hx
  have hall : (h ++ es).accepted = h.accepted := by
    rw [Pool.History.accepted_append, haccepted, List.append_nil]
  cases stage with
  | register | registering => exact absurd (Collecting.workers_eq hstands hs) hsome
  | schedule i => exact absurd (hstands.2.workers_eq hs) hsome
  | receive r =>
    obtain ⟨hle, hscheduled, hopened, hfree, hlength⟩ := hstands
    refine ⟨hle, hall.trans hscheduled, hopen.trans hopened, howner.trans hfree, ?_⟩
    rw [hworkers, List.length_set]
    exact hlength
  | abandoned e => exact ⟨hall.trans hstands.1, hopen.trans hstands.2.1, howner.trans hstands.2.2⟩
  | terminating ending =>
    obtain ⟨hscheduled, hbusy, hdrains⟩ := hstands
    refine ⟨hall.trans hscheduled, howner ▸ hbusy, fun hending => ?_⟩
    exact Pool.drained_step (hdrains hending) he
  | stop ending | stopping ending => exact absurd hstands.2.1 hsome
  | «over» | faulted | dead => exact absurd hstands.2 hsome

/-- A pool that is collecting accepts the next task. -/
theorem Collecting.schedule (hcollecting : Collecting i h p)
    (he : Pool.Effect p (.schedule i) es q) : Collecting (i + 1) (h ++ es) q := by
  obtain ⟨haccepted, hopen, hfree, hstarted⟩ := hcollecting
  cases he with
  | accept =>
    refine ⟨?_, hopen, hfree, hstarted⟩
    rw [Pool.History.accepted_append, haccepted, List.range_succ]
    rfl
  | refuse _ hclosed =>
    rw [hopen] at hclosed
    cases hclosed
  | start hmade | refuseStart hmade => cases hmade

/-- It starts with the workers that can be made, and accepts nothing by that. -/
theorem Collecting.start (hcollecting : Collecting i h p)
    (hl : l = .start ∨ ∃ made reason, l = .startShort made reason)
    (he : Pool.Effect p l es q) :
    (h ++ es).accepted = List.range i ∧ q.isOpen = true ∧ q.owner = .free ∧
      l.made? p.threads = some q.workers.length := by
  obtain ⟨haccepted, hopen, hfree, hstarted⟩ := hcollecting
  cases he with
  | start hmade =>
    refine ⟨?_, hopen, hfree, by rw [hmade, List.length_replicate]⟩
    rw [Pool.History.accepted_append, haccepted]
    exact List.append_nil _
  | refuseStart _ _ hnot => simp [hopen, hstarted] at hnot
  | _ => rcases hl with hl | ⟨made, reason, hl⟩ <;> cases hl

/-- Who terminates an open pool is busy with that, and the pool accepts nothing by it. -/
theorem Stands.terminate {wait : Bool} {ending : Ending}
    (haccepted : h.accepted = List.range messages) (hopen : p.isOpen = true)
    (hl : l.drains? = some wait) (hstep : p.step l = some q)
    (hdrains : ending = .enough → Pool.Draining q) :
    Stands threads messages (h ++ p.events l) q (.terminating ending) := by
  have hevents : p.events l = [] := by
    cases l <;> first | rfl | cases hl
  rw [hevents, List.append_nil]
  refine ⟨haccepted, ?_, fun hending => .inl (hdrains hending)⟩
  obtain ⟨-, rfl⟩ := Pool.eq_terminate_of_step hopen hl hstep
  exact nofun

/-- What the owner orders is done, and it goes on from there. -/
theorem Stands.order (hthreads : 0 < threads) (hc : Pool.Course (.fresh threads) h s.pool)
    (hstands : Stands threads messages h s.pool s.stage) (ho : Orders messages s a l next)
    (hstep : s.pool.step l = some q) :
    Stands threads messages (h ++ s.pool.events l) q next := by
  have he := Pool.effect_of_step hstep
  cases ho with
  | schedule hstage hlt =>
    rw [hstage] at hstands
    exact ⟨hlt, hstands.2.schedule he⟩
  | start hstage hle =>
    rw [hstage] at hstands
    obtain rfl := Nat.le_antisymm hstands.1 hle
    obtain ⟨haccepted, hopen, hfree, hmade⟩ := hstands.2.start (.inl rfl) he
    exact ⟨Nat.zero_le _, haccepted, hopen, hfree,
      (Option.some.inj hmade).symm.trans hc.staffed.size⟩
  | startShort hstage hle =>
    rw [hstage] at hstands
    obtain rfl := Nat.le_antisymm hstands.1 hle
    obtain ⟨haccepted, hopen, hfree, -⟩ := hstands.2.start (.inr ⟨_, _, rfl⟩) he
    exact ⟨haccepted, hopen, hfree⟩
  | enough hstage =>
    rw [hstage] at hstands
    obtain ⟨-, haccepted, hopen, -, hlength⟩ := hstands
    have hsome : s.pool.workers ≠ [] := List.ne_nil_of_length_pos (hlength ▸ hthreads)
    exact .terminate haccepted hopen rfl hstep fun _ => hc.draining hopen hsome hstep
  | expire hstage =>
    rw [hstage] at hstands
    exact .terminate hstands.2.1 hstands.2.2.1 rfl hstep nofun
  | abandon hstage =>
    rw [hstage] at hstands
    exact .terminate hstands.1 hstands.2.1 rfl hstep nofun
  | close hstage =>
    rw [hstage] at hstands
    obtain ⟨haccepted, -, hdrains⟩ := hstands
    refine ⟨(Pool.History.accepted_append.trans (List.append_nil _)).trans haccepted, ?_,
      fun hending => Pool.drained_step (hdrains hending) he⟩
    obtain ⟨-, hq⟩ := Option.ite_none_right_eq_some.1 hstep
    cases hq
    exact nofun
  | «return» hstage =>
    rw [hstage] at hstands
    obtain ⟨haccepted, -, hdrains⟩ := hstands
    have hc' := hc.step hstep
    have hall : (h ++ s.pool.events .return).accepted = List.range messages := by
      rw [Pool.History.accepted_append, ← haccepted]
      exact (congrArg _ (Pool.History.eq_nil_of_map_dequeued _).1).trans (List.append_nil _)
    obtain ⟨-, hq⟩ := Option.ite_none_right_eq_some.1 hstep
    refine ⟨hall, ?_, fun hending => ?_⟩
    · cases hq
      rfl
    · have hfree : q.owner = .free := by
        cases hq
        rfl
      rcases Pool.drained_step (hdrains hending) he with hd | ⟨hover, hdiscarded⟩
      · exact absurd hfree hd.busy
      · obtain ⟨-, -, hperm⟩ := hc'.of_returned hover.closed hfree
        rw [hall, hdiscarded, Queue.toList_empty, List.append_nil] at hperm
        exact hperm.symm

/-! ## The measurement -/

structure Working (threads messages : Nat) (h : Pool.History Nat) (tasks : List Nat) (s : State S) :
    Prop where
  course : Pool.Course (.fresh threads) h s.pool
  stands : Stands threads messages h s.pool s.stage
  apart : s.asked.Nodup
  running : ∀ w ∈ s.asked, (s.pool.task? w).isSome = true
  begun : tasks.Perm (h.ended ++ s.asked.filterMap s.pool.task?)

/-- The task that a step begins to broadcast. -/
def begins (s : State S) : Label I → List Nat
  | .work w => if w ∈ s.asked then [] else (s.pool.task? w).toList
  | _ => []

/-- Who takes a task, looks at the flag or leaves is running nothing. -/
theorem begins_of_turn (hl : l = .take w ∨ l = .check w ∨ l = .leave w)
    (hstep : s.pool.step l = some q) : begins s (.work w : Label I) = [] := by
  have he := Pool.effect_of_step hstep
  have hnone : s.pool.task? w = none := by
    unfold Pool.task?
    generalize s.pool.events l = es at he
    rcases hl with rfl | rfl | rfl
    · cases he with
      | take hw => rw [hw]; rfl
      | start hmade | refuseStart hmade => cases hmade
    · cases he with
      | run hw | discard hw => rw [hw]; rfl
      | start hmade | refuseStart hmade => cases hmade
    · cases he with
      | leave hw => rw [hw]; rfl
      | start hmade | refuseStart hmade => cases hmade
  simp only [begins, hnone, Option.toList_none, ite_self]

theorem working_start (threads messages : Nat) (medium : S) :
    Working threads messages [] [] (start threads medium) where
  course := .nil _
  stands := ⟨rfl, rfl, rfl, rfl⟩
  apart := .nil
  running := nofun
  begun := .refl _

namespace Working

variable (hw : Working threads messages h tasks s)
include hw

/-- Tasks that were broadcast were scheduled, and each no more often. -/
theorem subperm : tasks.Subperm h.accepted := by
  have haccount := hw.course.accepted_perm
  have hended := hw.course.account.ended
  have hsome := Pool.filterMap_task?_subperm hw.apart hw.running
  refine hw.begun.subperm.trans (.trans (.trans ?_ hended.symm.subperm) ?_)
  · exact (List.subperm_append_left _).2 hsome |>.trans List.perm_append_comm.subperm
  · refine .trans ?_ haccount.symm.subperm
    exact List.Sublist.subperm ((List.sublist_append_right _ _).trans (List.sublist_append_left _ _))

/-- No more is broadcast than there are messages. -/
theorem length_le : tasks.length ≤ messages :=
  Nat.le_trans hw.subperm.length_le hw.stands.length_accepted_le

theorem length_asked_le : s.asked.length ≤ s.pool.running.length := by
  have hsub := (Pool.filterMap_task?_subperm hw.apart hw.running).length_le
  rwa [List.filterMap_length_eq_length.2 hw.running] at hsub

/-- A single worker has one broadcast under way at most. -/
theorem asked_eq_of_single (hone : threads = 1) (hmem : w ∈ s.asked) : s.asked = [w] := by
  have hle : s.asked.length ≤ 1 := by
    subst hone
    exact Nat.le_trans hw.length_asked_le
      (Nat.le_trans (List.length_filterMap_le _ _) hw.course.staffed.most)
  obtain ⟨v, hv⟩ := List.length_eq_one_iff.1 (Nat.le_antisymm hle (List.length_pos_of_mem hmem))
  rw [hv] at hmem ⊢
  rw [List.mem_singleton.1 hmem]

/-- There are workers only between the start of the pool and the end of its termination. -/
theorem stage_of_workers (hsome : s.pool.workers ≠ []) : (∃ r, s.stage = .receive r) ∨
    (∃ e, s.stage = .abandoned e) ∨ ∃ ending, s.stage = .terminating ending := by
  have hstands := hw.stands
  have hs := hw.course.sound
  cases hstage : s.stage with
  | receive r => exact .inl ⟨r, rfl⟩
  | abandoned e => exact .inr (.inl ⟨e, rfl⟩)
  | terminating ending => exact .inr (.inr ⟨ending, rfl⟩)
  | register | registering =>
    rw [hstage] at hstands
    exact absurd (Collecting.workers_eq hstands hs) hsome
  | schedule i =>
    rw [hstage] at hstands
    exact absurd (hstands.2.workers_eq hs) hsome
  | stop | stopping =>
    rw [hstage] at hstands
    exact absurd hstands.2.1 hsome
  | «over» | faulted | dead =>
    rw [hstage] at hstands
    exact absurd hstands.2 hsome

theorem asked_eq_nil (hnone : s.pool.workers = []) : s.asked = [] := by
  refine List.eq_nil_iff_forall_not_mem.2 fun w hmem => ?_
  obtain ⟨i, hi⟩ := Option.isSome_iff_exists.1 (hw.running w hmem)
  rw [Pool.task?_eq_some_iff, hnone] at hi
  cases hi

theorem of_same (hnone : begins s a = []) (hpool : t.pool = s.pool) (hasked : t.asked = s.asked)
    (hstands : Stands threads messages h s.pool t.stage) :
    Working threads messages h (tasks ++ begins s a) t := by
  rw [hnone, List.append_nil]
  refine ⟨?_, ?_, ?_, ?_, ?_⟩
  · exact hpool ▸ hw.course
  · exact hpool ▸ hstands
  · exact hasked ▸ hw.apart
  · rw [hasked, hpool]
    exact hw.running
  · rw [hasked, hpool]
    exact hw.begun

/-- Nobody's task ends. -/
theorem of_poolStep (hnone : begins s a = []) (hstep : s.pool.step l = some q)
    (hgoes : ∀ w panicked, l ≠ .finish w panicked) (hpool : t.pool = q) (hasked : t.asked = s.asked)
    (hstands : Stands threads messages (h ++ s.pool.events l) q t.stage) :
    Working threads messages (h ++ s.pool.events l) (tasks ++ begins s a) t := by
  rw [hnone, List.append_nil]
  have he := Pool.effect_of_step hstep
  have hsame : ∀ w ∈ s.asked, q.task? w = s.pool.task? w := by
    intro w hmem
    obtain ⟨i, hi⟩ := Option.isSome_iff_exists.1 (hw.running w hmem)
    rw [hi]
    exact he.task?_eq hw.course.sound hi (hgoes w)
  subst hpool
  refine ⟨hw.course.step hstep, hstands, hasked ▸ hw.apart, fun w hmem => ?_, ?_⟩
  · rw [hasked] at hmem
    rw [hsame w hmem]
    exact hw.running w hmem
  · rw [hasked, Pool.History.ended_append, he.ended_eq_nil hgoes, List.append_nil,
      List.filterMap_congr hsame]
    exact hw.begun

theorem of_finish {panicked : Bool} (hi : s.pool.task? w = some i) (hmem : w ∈ s.asked)
    (hstep : s.pool.step (.finish w panicked) = some q) (hpool : t.pool = q)
    (hasked : t.asked = s.asked.erase w) (hstage : t.stage = s.stage) :
    Working threads messages (h ++ s.pool.events (.finish w panicked)) tasks t := by
  have he := Pool.effect_of_step hstep
  have hevents : s.pool.events (.finish w panicked) = [.ended i panicked] := by
    simp only [Pool.events, Pool.task?_eq_some_iff.1 hi]
  -- the others go on with their tasks
  have hsame : ∀ v ∈ s.asked.erase w, q.task? v = s.pool.task? v := by
    intro v hv
    obtain ⟨hne, hv⟩ := hw.apart.mem_erase_iff.1 hv
    obtain ⟨j, hj⟩ := Option.isSome_iff_exists.1 (hw.running v hv)
    rw [hj]
    refine he.task?_eq hw.course.sound hj fun _ heq => hne ?_
    cases heq
    rfl
  subst hpool
  refine ⟨hw.course.step hstep, ?_, hasked ▸ hw.apart.erase w, fun v hv => ?_, ?_⟩
  · rw [hstage]
    exact hw.stands.turn hw.course.sound he rfl
  · rw [hasked] at hv
    rw [hsame v hv]
    exact hw.running v (List.mem_of_mem_erase hv)
  · rw [hasked, List.filterMap_congr hsame, hevents, Pool.History.ended_append]
    have hperm := (List.perm_cons_erase hmem).filterMap s.pool.task?
    rw [List.filterMap_cons_some hi] at hperm
    refine hw.begun.trans ((hperm.append_left _).trans ?_)
    rw [List.append_assoc]
    exact .refl _

theorem of_broadcast (hi : s.pool.task? w = some i) (hmem : w ∉ s.asked) (hpool : t.pool = s.pool)
    (hasked : t.asked = w :: s.asked) (hstage : t.stage = s.stage) :
    Working threads messages h (tasks ++ [i]) t := by
  refine ⟨hpool ▸ hw.course, ?_, ?_, fun v hv => ?_, ?_⟩
  · rw [hpool, hstage]
    exact hw.stands
  · rw [hasked]
    exact List.nodup_cons.2 ⟨hmem, hw.apart⟩
  · rw [hpool]
    rw [hasked] at hv
    rcases List.mem_cons.1 hv with rfl | hv
    · rw [hi]
      rfl
    · exact hw.running v hv
  · rw [hpool, hasked, List.filterMap_cons_some hi]
    exact (List.perm_append_comm.trans (hw.begun.cons i)).trans List.perm_middle.symm

/-- A worker that takes a task, looks at the flag or leaves. -/
theorem of_turn (hl : l = .take w ∨ l = .check w ∨ l = .leave w) (hstep : s.pool.step l = some q) :
    Working threads messages (h ++ s.pool.events l) (tasks ++ begins s (.work w : Label I))
      { s with pool := q } := by
  have he := Pool.effect_of_step hstep
  have hworker : l.worker? = some w := by
    rcases hl with rfl | rfl | rfl <;> rfl
  refine hw.of_poolStep (begins_of_turn hl hstep) hstep ?_ rfl rfl
    (hw.stands.turn hw.course.sound he hworker)
  rintro v panicked rfl
  rcases hl with hl | hl | hl <;> cases hl

theorem step (hthreads : 0 < threads) (he : Effect M messages s a t) :
    ∃ h', Working threads messages h' (tasks ++ begins s a) t := by
  have hstands := hw.stands
  cases he with
  | noRoom hstage | refused hstage | died hstage =>
    rw [hstage] at hstands
    exact ⟨h, hw.of_same rfl rfl rfl
      ⟨hw.stands.length_accepted_le, Collecting.workers_eq hstands hw.course.sound⟩⟩
  | register hstage | stop hstage =>
    rw [hstage] at hstands
    exact ⟨h, hw.of_same rfl rfl rfl hstands⟩
  | registered hstage =>
    rw [hstage] at hstands
    exact ⟨h, hw.of_same rfl rfl rfl ⟨Nat.zero_le _, hstands⟩⟩
  | order ho hstep =>
    refine ⟨_, hw.of_poolStep ?_ hstep ?_ rfl rfl (hstands.order hthreads hw.course ho hstep)⟩
    · cases ho <;> rfl
    · cases ho <;> exact nofun
  | receive hstage hlt =>
    rw [hstage] at hstands
    exact ⟨h, hw.of_same rfl rfl rfl ⟨hlt, hstands.2⟩⟩
  | returned hstage =>
    rw [hstage] at hstands
    exact ⟨h, hw.of_same rfl rfl rfl ⟨hw.stands.length_accepted_le, hstands.2.1⟩⟩
  | turn hl hstep => exact ⟨_, hw.of_turn hl hstep⟩
  | broadcast hrunning hmem =>
    have hi := Pool.task?_eq_some_iff.2 hrunning
    simp only [begins, if_neg hmem, hi, Option.toList_some]
    exact ⟨h, hw.of_broadcast hi hmem rfl rfl rfl⟩
  | finish hrunning hmem _ hstep =>
    simp only [begins, if_pos hmem, List.append_nil]
    exact ⟨_, hw.of_finish (Pool.task?_eq_some_iff.2 hrunning) hmem hstep rfl rfl rfl⟩
  | pass => exact ⟨h, hw.of_same rfl rfl rfl hstands⟩

end Working

/-! ## A start that fails -/

def Ending.startError? : Ending → Option PoolError
  | .startFailed e => some e
  | .enough | .timedOut _ => none

/-- Why the pool could not be started. -/
def Stage.startError? : Stage → Option PoolError
  | .abandoned e | .over (.error (.pool e)) => some e
  | .terminating ending | .stop ending | .stopping ending => ending.startError?
  | _ => none

theorem startError?_verdict (failures : List RelayError) (ending : Ending) :
    (Stage.over (verdict messages failures ending)).startError? = ending.startError? := by
  cases ending <;> cases failures <;> rfl

/-- The pool is not started only where a worker cannot be made. -/
theorem Working.startError {e : PoolError} (hw : Working threads messages h tasks s)
    (he : Effect M messages s a t) (herror : t.stage.startError? = some e) :
    s.stage.startError? = some e ∨ ∃ made reason, a = .startShort made reason ∧ e = .spawn reason := by
  have hstands := hw.stands
  cases he with
  | order ho hstep =>
    cases ho with
    | startShort hstage =>
      rw [hstage] at hstands
      obtain ⟨-, -, hopen, -, hstarted⟩ := hstands
      refine .inr ⟨_, _, rfl, ?_⟩
      simpa [Stage.startError?, Pool.startShort, Pool.startWith, hopen, hstarted] using herror.symm
    | abandon hstage | close hstage | «return» hstage =>
      rw [hstage]
      exact .inl herror
    | schedule | start | enough | expire => cases herror
  | stop hstage =>
    rw [hstage]
    exact .inl herror
  | returned hstage =>
    rw [hstage]
    exact .inl ((startError?_verdict _ _).symm.trans herror)
  | turn | broadcast | finish | pass => exact .inl herror
  | noRoom | register | registered | refused | died | receive => cases herror

end Throughput

end Lockstep
