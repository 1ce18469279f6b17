import Mathlib.Algebra.Order.BigOperators.Group.List
import Mathlib.Algebra.Order.Group.Nat
import Lockstep.Proofs.Measurement.Copies

/-!
# What a measurement of throughput returns

The relay is one that multiplies deliveries (`Copies`). `Outcome` is the result, which depends on how
the broadcasts come out and on nothing else. `Tallied` is the invariant: what was handed to the service,
received and dropped adds up to the copies of the broadcasts made so far, and whoever has failed has
said so or will. `outcome_of_throughput` reads the result off it, and that there is one.
-/

set_option autoImplicit false

namespace Lockstep.Throughput

open Medium Copies

/-- The owner waits for a reply, as caller 0. -/
def Stage.callers : Stage → List Nat
  | .registering | .stopping _ => [0]
  | _ => []

/-- A receive times out only once every scheduled task has run and all its copies are handed over. -/
def Timely (s : State Copies) : Label Unit → Prop
  | .expire => Exhausted s.pool ∧ s.medium.pending.toList = []
  | _ => True

/-- The result if the workers can be made. -/
inductive Outcome (copies : List Copy) (threads messages : Nat) : Except MeasureError Nat → Prop
  /-- With one thread the first error is reported. -/
  | failed {e} : e ∈ errors copies messages →
      (threads = 1 → (errors copies messages).head? = some e) →
      Outcome copies threads messages (.error (.relay e))
  | complete : errors copies messages = [] → messages ≤ delivered copies messages →
      Outcome copies threads messages (.ok messages)
  | incomplete : errors copies messages = [] → delivered copies messages < messages →
      Outcome copies threads messages (.error (.receiveTimeout (delivered copies messages)))

/-- What is known where the pool is terminated for this reason. -/
def Concludes (copies : List Copy) (messages : Nat) (tasks : List Nat) : Ending → Prop
  | .enough => messages ≤ delivered copies messages
  | .timedOut r => r = delivered copies messages ∧ r < messages ∧ tasks.length = messages
  | .startFailed _ => True

/-- Of the copies of the broadcasts made so far `r` are received, and those that are not handed over
are pending. -/
def Counted (copies : List Copy) (messages : Nat) (tasks : List Nat) (m : Copies)
    (inbox : Inbox Payload) (r : Nat) : Prop :=
  ∃ offered, Inbox.Holds (max messages 1) offered r inbox ∧
    offered.length + m.pending.toList.length = delivered copies tasks.length

/-- What is known of the medium and the inbox where the owner stands. -/
def Fits (copies : List Copy) (conn threads messages : Nat) (tasks : List Nat) (m : Copies)
    (inbox : Inbox Payload) : Stage → Prop
  | .register => m = { registration := .ok conn, copies } ∧ tasks = []
  | .registering => m.replies = [(0, .ok conn)] ∧ Counted copies messages tasks m inbox 0
  | .schedule _ => Counted copies messages tasks m inbox 0
  | .receive r => Counted copies messages tasks m inbox r
  | .abandoned _ => True
  | .terminating ending | .stop ending => Concludes copies messages tasks ending
  | .stopping ending => m.replies = [(0, .ok 0)] ∧ Concludes copies messages tasks ending
  | .over result => Outcome copies threads messages result ∨ ∃ e, result = .error (.pool e)
  | .faulted _ | .dead => False

structure Tallied (copies : List Copy) (conn threads messages : Nat) (h : Pool.History Nat)
    (tasks : List Nat) (s : State Copies) : Prop where
  working : Working threads messages h tasks s
  answered : Answered copies (threads = 1) tasks.length (s.stage.callers ++ s.asked.map (· + 1))
    s.failures s.medium
  fits : Fits copies conn threads messages tasks s.medium s.inbox s.stage

variable {copies : List Copy} {conn threads messages : Nat} {h h' : Pool.History Nat}
  {tasks : List Nat} {s t : State Copies} {a : Label Unit} {ending : Ending} {next : Stage}
  {l : Pool.Label Nat} {w i : Nat} {r : Reply} {m : Copies} {pool : Pool Nat}

theorem tallied_start (copies : List Copy) (conn threads messages : Nat) :
    Tallied copies conn threads messages [] []
      (start threads ({ registration := .ok conn, copies } : Copies)) where
  working := working_start threads messages _
  answered := ⟨rfl, .refl _, .refl _, fun _ => rfl⟩
  fits := ⟨rfl, rfl⟩

/-! ## The owner -/

/-- The result, where all broadcasts were heard of. -/
theorem outcome_of_concludes {failures : List RelayError}
    (hperm : failures.Perm (errors copies tasks.length))
    (hfirst : threads = 1 → failures = errors copies tasks.length)
    (hall : ending = .enough → tasks.length = messages)
    (hconcludes : Concludes copies messages tasks ending) :
    Outcome copies threads messages (verdict messages failures ending) ∨
      ∃ e, verdict messages failures ending = .error (.pool e) := by
  have hfailed {e : RelayError} {rest : List RelayError} (hfailures : failures = e :: rest)
      (hlength : tasks.length = messages) : Outcome copies threads messages (.error (.relay e)) := by
    rw [hlength] at hperm hfirst
    refine .failed (hperm.mem_iff.1 (hfailures ▸ List.mem_cons_self)) fun hone => ?_
    rw [← hfirst hone, hfailures]
    rfl
  cases ending with
  | startFailed e => exact .inr ⟨e, rfl⟩
  | enough =>
    have hlength := hall rfl
    cases hfailures : failures with
    | cons e rest => exact .inl (hfailed hfailures hlength)
    | nil =>
      rw [hfailures, hlength] at hperm
      exact .inl (.complete hperm.nil_eq.symm hconcludes)
  | timedOut r =>
    obtain ⟨rfl, hlt, hlength⟩ := hconcludes
    cases hfailures : failures with
    | cons e rest => exact .inl (hfailed hfailures hlength)
    | nil =>
      rw [hfailures, hlength] at hperm
      exact .inl (.incomplete hperm.nil_eq.symm hlt)

theorem eq_of_only_reply {r' : Reply} {m' : Copies} (honly : m.replies = [(0, r)])
    (hr : m.reply? 0 = some (r', m')) : r' = r ∧ m' = { m with replies := [] } := by
  obtain ⟨hlookup, rfl⟩ := reply?_eq_some_iff.1 hr
  rw [honly] at hlookup ⊢
  obtain rfl := Option.some.inj hlookup
  exact ⟨rfl, rfl⟩

theorem callers_of_orders (ho : Orders messages s a l next) :
    s.stage.callers = [] ∧ next.callers = [] := by
  cases ho with
  | schedule h | start h | startShort h | enough h | expire h | abandon h | close h | «return» h =>
    rw [h]
    exact ⟨rfl, rfl⟩

namespace Tallied

variable (hs : Tallied copies conn threads messages h tasks s)
include hs

/-- What the owner orders leaves the medium alone. -/
theorem fits_of_order (ho : Orders messages s a l next) (hok : Timely s a) :
    Fits copies conn threads messages tasks s.medium s.inbox next := by
  have hfits := hs.fits
  cases ho with
  | schedule hstage | start hstage =>
    rw [hstage] at hfits
    exact hfits
  | startShort | abandon => exact trivial
  | enough hstage hle =>
    rw [hstage] at hfits
    have hreceived := Accounted.le_delivered hfits
    exact hle.trans (hreceived.trans (delivered_mono copies hs.working.length_le))
  | expire hstage hlt hempty =>
    rw [hstage] at hfits
    obtain ⟨hexhausted, hpending⟩ := hok
    -- fewer were received than there are places, so the queue has dropped none
    have hreceived :=
      Accounted.delivered_eq hfits (Nat.lt_of_lt_of_le hlt (Nat.le_max_left _ _)) hpending hempty
    have hall := (hs.working.perm_of_exhausted hstage hexhausted).length_eq
    rw [List.length_range] at hall
    rw [hall] at hreceived
    exact ⟨hreceived.symm, hlt, hall⟩
  | close hstage | «return» hstage =>
    rw [hstage] at hfits
    exact hfits

theorem fits_of_over (hstage : s.stage = .stopping ending) :
    Outcome copies threads messages (verdict messages s.failures ending) ∨
      ∃ e, verdict messages s.failures ending = .error (.pool e) := by
  have hfits := hs.fits
  have hanswered := hs.answered
  rw [hstage] at hfits
  obtain ⟨honly, hconcludes⟩ := hfits
  have hreported : s.medium.reported = [] := by
    rw [reported, honly]
    rfl
  refine outcome_of_concludes ?_ (fun hone => ?_) (fun hending => ?_) hconcludes
  · simpa [hreported] using hanswered.failed
  · simpa [hreported] using hanswered.first hone
  · subst hending
    have hall := (hs.working.perm_of_drained (.inr hstage)).length_eq
    rwa [List.length_range] at hall

/-! ## The workers and the medium -/

/-- A worker hears of its broadcast. -/
theorem fits_of_finish (hsome : s.pool.workers ≠ []) (hm : m.pending = s.medium.pending) :
    Fits copies conn threads messages tasks m s.inbox s.stage := by
  have hfits := hs.fits
  rcases hs.working.stage_of_workers hsome with ⟨r, hstage⟩ | ⟨e, hstage⟩ | ⟨ending, hstage⟩
  · rw [hstage] at hfits ⊢
    unfold Fits Counted at hfits ⊢
    rw [hm]
    exact hfits
  · rw [hstage]
    trivial
  · rw [hstage] at hfits ⊢
    exact hfits

/-- A broadcast adds its copies to what is pending. -/
theorem fits_of_broadcast (hsome : s.pool.workers ≠ []) (hle : tasks.length < messages)
    (hm : m.pending.toList.length =
      s.medium.pending.toList.length + (fate copies tasks.length).count) :
    Fits copies conn threads messages (tasks ++ [i]) m s.inbox s.stage := by
  have hfits := hs.fits
  rcases hs.working.stage_of_workers hsome with ⟨r, hstage⟩ | ⟨e, hstage⟩ | ⟨ending, hstage⟩
  · rw [hstage] at hfits ⊢
    have hbroadcast := Accounted.broadcast hfits hm
    rw [← List.length_singleton (a := i), ← List.length_append] at hbroadcast
    exact hbroadcast
  · rw [hstage]
    trivial
  · rw [hstage] at hfits ⊢
    cases ending with
    | timedOut r =>
      obtain ⟨-, -, hlength⟩ := hfits
      exact absurd hlength (Nat.ne_of_lt hle)
    | enough | startFailed => exact hfits

/-- A copy that is handed over is offered to the inbox. -/
theorem fits_of_pass {p : Payload} {pending : Queue Payload}
    (hpop : s.medium.pending.pop? = some (p, pending)) :
    Fits copies conn threads messages tasks { s.medium with pending } (s.inbox.offer p) s.stage := by
  have hfits := hs.fits
  cases hstage : s.stage with
  | register =>
    rw [hstage] at hfits
    rw [hfits.1] at hpop
    cases hpop
  | registering =>
    rw [hstage] at hfits
    exact ⟨hfits.1, Accounted.pass hfits.2 hpop⟩
  | schedule | receive =>
    rw [hstage] at hfits
    exact Accounted.pass hfits hpop
  | abandoned => trivial
  | terminating | stop | stopping | «over» | faulted | dead =>
    rw [hstage] at hfits
    exact hfits

/-! ## All steps -/

omit hs in
theorem of_main (hnone : begins s a = []) (hw : Working threads messages h' (tasks ++ begins s a) t)
    (hanswered : Answered copies (threads = 1) tasks.length
      (t.stage.callers ++ t.asked.map (· + 1)) t.failures t.medium)
    (hfits : Fits copies conn threads messages tasks t.medium t.inbox t.stage) :
    ∃ h', Tallied copies conn threads messages h' (tasks ++ begins s a) t := by
  rw [hnone, List.append_nil] at hw ⊢
  exact ⟨h', hw, hanswered, hfits⟩

theorem callers_eq_nil (hsome : s.pool.workers ≠ []) : s.stage.callers = [] := by
  rcases hs.working.stage_of_workers hsome with ⟨r, hstage⟩ | ⟨e, hstage⟩ | ⟨ending, hstage⟩ <;>
    · rw [hstage]
      rfl

theorem answered_of_finish (hsome : s.pool.workers ≠ []) (hmem : w ∈ s.asked)
    (hr : s.medium.reply? (w + 1) = some (r, m)) :
    Answered copies (threads = 1) tasks.length (s.stage.callers ++ (s.asked.erase w).map (· + 1))
      (s.failures ++ r.error?.toList) m := by
  have hanswered := hs.answered
  rw [hs.callers_eq_nil hsome, List.nil_append] at hanswered ⊢
  have hperm := (List.perm_cons_erase hmem).map (· + 1)
  have hnodup : (s.asked.map (· + 1)).Nodup := hs.working.apart.map fun _ _ => Nat.succ.inj
  refine (hanswered.of_perm hperm).hear (hperm.nodup_iff.1 hnodup) (fun hone => ?_) hr
  rw [hs.working.asked_eq_of_single hone hmem, List.erase_cons_head, List.map_nil]

/-- The owner hears that its call succeeded, while no worker broadcasts. -/
theorem answered_of_owner {value : Nat} (hcallers : s.stage.callers = [0]) (hasked : s.asked = [])
    (hr : s.medium.reply? 0 = some (.ok value, m)) :
    Answered copies (threads = 1) tasks.length (s.asked.map (· + 1)) s.failures m := by
  have hanswered := hs.answered
  rw [hcallers, hasked] at hanswered
  have hheard := hanswered.hear (List.nodup_singleton 0) (fun _ => rfl) hr
  rw [show (Reply.ok value).error? = none from rfl, Option.toList_none, List.append_nil] at hheard
  rw [hasked]
  exact hheard

/-- Each step that is no time-out, or a timely one, leaves the measurement tallied. -/
theorem step (hthreads : 0 < threads) (hroom : (probeInbox messages).isOk = true)
    (hok : Timely s a) (he : Effect medium messages s a t) :
    ∃ h', Tallied copies conn threads messages h' (tasks ++ begins s a) t := by
  obtain ⟨h', hw⟩ := hs.working.step hthreads he
  have hanswered := hs.answered
  have hfits := hs.fits
  have hstands := hs.working.stands
  cases he with
  | noRoom _ hinbox =>
    rw [hinbox] at hroom
    cases hroom
  | register hstage hinbox =>
    rw [hstage] at hanswered hfits
    obtain ⟨hmedium, rfl⟩ := hfits
    obtain ⟨-, rfl⟩ := Inbox.ofCapacity_eq_ok_iff.1 hinbox
    have hask : medium.ask s.medium 0 .register = s.medium.reply 0 (.ok conn) := by
      rw [hmedium]
      rfl
    refine of_main rfl hw ?_ ⟨?_, [], Inbox.holds_empty _, ?_⟩
    · simp only [ask, hask]
      exact hanswered.ask rfl
    · simp only [ask, hmedium]
      rfl
    · simp only [ask, hmedium]
      rfl
  | refused hstage hr | died hstage hr =>
    rw [hstage] at hfits
    obtain ⟨heq, -⟩ := eq_of_only_reply hfits.1 hr
    cases heq
  | registered hstage hr =>
    rw [hstage] at hfits hstands
    obtain ⟨heq, rfl⟩ := eq_of_only_reply hfits.1 hr
    cases heq
    have hasked := hs.working.asked_eq_nil (Collecting.workers_eq hstands hs.working.course.sound)
    exact of_main rfl hw (hs.answered_of_owner (congrArg Stage.callers hstage) hasked hr) hfits.2
  | order ho =>
    refine of_main (by cases ho <;> rfl) hw ?_ (hs.fits_of_order ho hok)
    obtain ⟨hbefore, hafter⟩ := callers_of_orders ho
    rw [hafter, ← hbefore]
    exact hanswered
  | receive hstage hlt hreceive =>
    rw [hstage] at hanswered hfits
    exact of_main rfl hw hanswered
      (Accounted.receive hfits (Nat.lt_of_lt_of_le hlt (Nat.le_max_left _ _)) hreceive)
  | stop hstage =>
    rw [hstage] at hanswered hfits hstands
    have hasked := hs.working.asked_eq_nil hstands.2.1
    have hreplies : s.medium.replies = [] := by
      have hwaiting := hanswered.waiting
      rw [hasked] at hwaiting
      exact List.map_eq_nil_iff.1 hwaiting.eq_nil
    refine of_main rfl hw ?_ ⟨?_, hfits⟩
    · simp only [ask, medium, ask_farewell]
      exact hanswered.ask rfl
    · simp only [ask, medium, ask_farewell, Copies.reply, hreplies]
      rfl
  | returned hstage hr =>
    have hover := hs.fits_of_over hstage
    rw [hstage] at hfits hstands
    obtain ⟨rfl, rfl⟩ := eq_of_only_reply hfits.1 hr
    have hasked := hs.working.asked_eq_nil hstands.2.1
    exact of_main rfl hw (hs.answered_of_owner (congrArg Stage.callers hstage) hasked hr) hover
  | turn hl hstep => exact of_main (begins_of_turn hl hstep) hw hanswered hfits
  | @broadcast w i hrunning hmem =>
    have hbegins : begins s (.work w : Label Unit) = [i] := by
      simp only [begins, if_neg hmem, Pool.task?_eq_some_iff.2 hrunning, Option.toList_some]
    rw [hbegins] at hw ⊢
    have hsome : s.pool.workers ≠ [] := List.ne_nil_of_mem (List.mem_of_getElem? hrunning)
    have hlt : tasks.length < messages := by
      have hle := hw.length_le
      rwa [List.length_append, List.length_singleton] at hle
    obtain ⟨pending, heq, hpending⟩ := ask_broadcast hanswered.rest (w + 1) s.conn (probe i)
    refine ⟨h', hw, ?_, hs.fits_of_broadcast hsome hlt ?_⟩
    · have hasked := hanswered.broadcast (w + 1) s.conn (probe i)
      rw [hs.callers_eq_nil hsome] at hasked
      rw [hs.callers_eq_nil hsome, List.length_append]
      exact hasked
    · show (Copies.ask s.medium (w + 1) _).pending.toList.length = _
      rw [heq, hpending, List.length_append, List.length_replicate]
  | finish hrunning hmem hr hstep =>
    have hsome : s.pool.workers ≠ [] := List.ne_nil_of_mem (List.mem_of_getElem? hrunning)
    obtain ⟨-, rfl⟩ := reply?_eq_some_iff.1 hr
    exact of_main (if_pos hmem) hw (hs.answered_of_finish hsome hmem hr)
      (hs.fits_of_finish hsome rfl)
  | pass hstep =>
    obtain ⟨⟨p, pending⟩, hpop, heq⟩ := Option.map_eq_some_iff.1 hstep
    cases heq
    exact of_main rfl hw ⟨hanswered.rest, hanswered.waiting, hanswered.failed, hanswered.first⟩
      (hs.fits_of_pass hpop)

end Tallied

/-! ## Every run -/

/-- A bound for what one broadcast adds to what is pending. -/
def most (copies : List Copy) : Nat := (copies.map Copy.count).sum + 1

theorem count_fate_le (copies : List Copy) (n : Nat) : (fate copies n).count ≤ most copies := by
  unfold fate most
  rw [List.getD_eq_getElem?_getD]
  cases hget : copies[n]? with
  | none => exact Nat.le_add_left _ _
  | some c =>
    exact Nat.le_succ_of_le
      (List.single_le_sum (fun _ _ => Nat.zero_le _) _ (List.mem_map_of_mem (List.mem_of_getElem? hget)))

theorem measured_of_rest {n : Nat} (hrest : m.copies = copies.drop n) :
    medium.Measured (fun m => m.pending.toList.length) (most copies) m where
  ask caller q := by
    cases q with
    | broadcast conn p =>
      obtain ⟨pending, heq, hpending⟩ := ask_broadcast hrest caller conn p
      have hle := count_fate_le copies n
      show (Copies.ask m caller _).pending.toList.length ≤ _
      rw [heq, hpending, List.length_append, List.length_replicate]
      exact Nat.add_le_add_left hle _
    | _ => exact Nat.le_add_right _ _
  reply caller r m' hr := by
    obtain ⟨-, rfl⟩ := reply?_eq_some_iff.1 hr
    exact Nat.le_refl _
  step i m' handover hstep := by
    obtain ⟨⟨p, pending⟩, hpop, heq⟩ := Option.map_eq_some_iff.1 hstep
    cases heq
    rw [Queue.toList_eq_of_pop? hpop]
    exact Nat.lt_succ_self _

theorem Tallied.steady (copies : List Copy) (conn : Nat) (hthreads : 0 < threads)
    (hroom : (probeInbox messages).isOk = true) :
    Steady medium threads messages (fun m => m.pending.toList.length) (most copies) Timely
      (fun s => ∃ h tasks, Tallied copies conn threads messages h tasks s) where
  working := by
    rintro s ⟨h, tasks, hs⟩
    exact ⟨h, tasks, hs.working⟩
  step := by
    rintro s a t ⟨h, tasks, hs⟩ hok hstep
    obtain ⟨h', ht⟩ := hs.step hthreads hroom hok (effect_of_step hstep)
    exact ⟨h', _, ht⟩
  measured := by
    rintro s ⟨h, tasks, hs⟩
    exact measured_of_rest hs.answered.rest
  alive := by
    rintro s ⟨h, tasks, hs⟩
    have hfits := hs.fits
    constructor
    · intro hstage
      rw [hstage] at hfits
      exact hfits
    · intro f hstage
      rw [hstage] at hfits
      exact hfits
  unhurried s a hne := by
    cases a with
    | expire => exact absurd rfl hne
    | _ => trivial
  answers := by
    rintro s ⟨h, tasks, hs⟩ -
    refine ⟨fun w hmem => hs.answered.exists_reply ?_, fun hawaits => hs.answered.exists_reply ?_⟩
    · exact List.mem_append_right _ (List.mem_map_of_mem hmem)
    · refine List.mem_append_left _ ?_
      cases hstage : s.stage <;> rw [hstage] at hawaits <;>
        first | exact List.mem_singleton_self 0 | cases hawaits
  patient := by
    rintro s r - hnone - - - hexhausted
    exact ⟨hexhausted, step_eq_none_iff.1 (hnone ())⟩

/-- A time-out that waits for all else is timely. -/
theorem Tallied.timely_of_next (hthreads : 0 < threads)
    (hs : Tallied copies conn threads messages h tasks s)
    (hn : (machine medium messages).Next s a t) : Timely s a := by
  cases a with
  | expire =>
    have hmedium := halted_of_medium (fun i => hn.1 (.medium i) rfl) ()
    have hasked (w : Nat) (hmem : w ∈ s.asked) :
        ∃ r m, medium.reply? s.medium (w + 1) = some (r, m) :=
      hs.answered.exists_reply (List.mem_append_right _ (List.mem_map_of_mem hmem))
    have hstands := hs.working.stands
    have he : Effect medium messages s .expire t := effect_of_step hn.2
    cases he with
    | order ho =>
      cases ho with
      | expire hstage =>
        rw [hstage] at hstands
        obtain ⟨-, -, hopen, hfree, hlength⟩ := hstands
        exact ⟨hs.working.exhausted (fun w => hn.1 (.work w) rfl) hasked hopen hfree
          (List.ne_nil_of_length_pos (hlength ▸ hthreads)), step_eq_none_iff.1 hmedium⟩
  | _ => trivial

/-- The run that is performed is timely. -/
theorem runWhere_run (copies : List Copy) (conn : Nat) (hthreads : 0 < threads)
    (hroom : (probeInbox messages).isOk = true) (fuel : Nat) :
    let begin : Copies := { registration := .ok conn, copies }
    ∃ as, (machine medium messages).RunWhere Timely (start threads begin) as
      (run medium messages fuel threads begin) := by
  intro begin
  obtain ⟨as, hr⟩ : (machine medium messages).Reaches (start threads begin)
      (run medium messages fuel threads begin) :=
    reaches_run (fun _ _ hi => step_of_notMem_moves hi) fuel begin
  refine ⟨as, hr.runWhere (P := fun s => ∃ h tasks, Tallied copies conn threads messages h tasks s)
    ⟨_, _, tallied_start copies conn threads messages⟩ ?_⟩
  rintro s a t ⟨h, tasks, hs⟩ hn
  have hok := hs.timely_of_next hthreads hn
  obtain ⟨h', ht⟩ := hs.step hthreads hroom hok (effect_of_step hn.2)
  exact ⟨hok, h', _, ht⟩

/-- **What a measurement of throughput returns** does not depend on the number of threads, their
interleaving and the deliveries that found the queue full: it comes to an end, and if any broadcast
fails its error is the result, however many messages were received. -/
theorem outcome_of_throughput (copies : List Copy) (conn : Nat) (hthreads : 0 < threads)
    (hroom : (probeInbox messages).isOk = true) :
    let begin : State Copies := start threads { registration := .ok conn, copies }
    (machine medium messages).Settles Timely Returned begin ∧
      ∀ as t result, (machine medium messages).RunWhere Timely begin as t →
        result? t = .ok (some result) → Outcome copies threads messages result ∨
          ∃ made reason, .startShort made reason ∈ as ∧ result = .error (.pool (.spawn reason)) := by
  intro begin
  have hsteady := Tallied.steady copies conn hthreads hroom
  have hbegin : ∃ h tasks, Tallied copies conn threads messages h tasks begin :=
    ⟨_, _, tallied_start copies conn threads messages⟩
  refine ⟨hsteady.settles hthreads hbegin, fun as t result hr hresult => ?_⟩
  obtain ⟨⟨h, tasks, ht⟩, hshort⟩ := hsteady.of_runWhere hr hbegin rfl
  have hstage := stage_of_result hresult
  have hfits := ht.fits
  rw [hstage] at hfits
  rcases hfits with houtcome | ⟨e, rfl⟩
  · exact .inl houtcome
  · obtain ⟨made, reason, hmem, rfl⟩ := hshort e (by rw [hstage]; rfl)
    exact .inr ⟨made, reason, hmem, rfl⟩

/-- Two workers and two messages. The first broadcast fails, the second is delivered twice: as many
messages are received as were to be, and the error is the result. -/
theorem error_past_surplus :
    let copies : List Copy := [.failed .relayClosed, .delivered 2]
    0 < 2 ∧ (probeInbox 2).isOk = true ∧ ∃ as t,
      (machine medium 2).RunWhere Timely (start 2 { registration := .ok 0, copies }) as t ∧
        result? t = .ok (some (.error (.relay .relayClosed))) ∧
        Outcome copies 2 2 (.error (.relay .relayClosed)) := by
  intro copies
  have hroom : (probeInbox 2).isOk = true := by decide
  obtain ⟨as, hr⟩ := runWhere_run copies 0 Nat.two_pos hroom 20
  have hresult : result? (run medium 2 20 2 ({ registration := .ok 0, copies } : Copies)) =
      .ok (some (.error (.relay .relayClosed))) := by decide +kernel
  refine ⟨by decide, hroom, as, _, hr, hresult, ?_⟩
  rcases (outcome_of_throughput copies 0 (by decide) hroom).2 as _ _ hr hresult with
    houtcome | ⟨made, reason, -, heq⟩
  · exact houtcome
  · cases heq

/-- Where the queue has no room for the messages the call ends in a panic, and says nothing of a
broadcast that would fail. -/
theorem panicked_without_room :
    let begin : State Copies := start 1 { registration := .ok 0, copies := [.failed .relayClosed] }
    ∃ t, (machine medium (2 ^ 58)).RunWhere Timely begin [.main] t ∧
      result? t = .error .capacity ∧ ¬ (machine medium (2 ^ 58)).Settles Timely Returned begin := by
  intro begin
  have hinbox : probeInbox (2 ^ 58) = .error .capacity := by
    decide
  let t : State Copies := { begin with stage := .faulted .capacity }
  have hstep : (machine medium (2 ^ 58)).step begin .main = some t := by
    show Throughput.main medium (2 ^ 58) begin = some t
    simp only [Throughput.main, begin, start, hinbox]
    rfl
  have hr : (machine medium (2 ^ 58)).RunWhere Timely begin [.main] t :=
    .cons trivial hstep (.nil t)
  have hquiet : (machine medium (2 ^ 58)).Quiet Timely t := by
    intro a _
    cases a <;> rfl
  refine ⟨t, hr, rfl, fun hsettles => ?_⟩
  obtain ⟨bound, hruns⟩ := hsettles
  obtain ⟨result, hresult⟩ := (hruns _ _ hr).2.1 hquiet
  cases hresult

end Lockstep.Throughput
