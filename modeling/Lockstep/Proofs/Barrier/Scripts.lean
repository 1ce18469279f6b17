import Mathlib.Data.List.Forall2
import Lockstep.Proofs.Barrier.Schedules

/-!
# Threads that follow a script

`Follows ops script` says that a program makes the blocking syncs of the script, each with or
without a time-out, and ends as the script does. On a timely run every thread is `OnTrack`: its
state, its syncs and its results are those of the script up to the current phase. Only where the
phase is over for good, a thread may have `Failed`: it has run out of time, has arrived in this
phase, and whatever it does next belongs to a phase that is never completed (`OnTrack.turn`,
`Failed.turn`).
-/

set_option autoImplicit false

namespace Lockstep.Barrier

variable {ε : Type}

inductive Follows : List (Op ε) → Script ε → Prop
  | ending (e : Ending ε) : Follows e.ops ⟨0, e⟩
  | syncWait (timed : Bool) (more : Nat) {ops : List (Op ε)} {rounds : Nat} {e : Ending ε} :
      Follows ops ⟨rounds, e⟩ → Follows (.syncWait timed more :: ops) ⟨more + 1 + rounds, e⟩

variable {ops : List (Op ε)} {script : Script ε} {timed : Bool} {more : Nat} {error : Option ε}

theorem follows_ops (script : Script ε) (timed : Bool) : Follows (script.ops timed) script := by
  obtain ⟨rounds, ending⟩ := script
  cases rounds with
  | zero => exact .ending ending
  | succ more => exact .syncWait timed more (.ending ending)

theorem forall₂_follows_ops (scripts : List (Script ε)) (timed : Bool) :
    List.Forall₂ Follows (scripts.map (·.ops timed)) scripts :=
  List.forall₂_map_left_iff.2 (List.forall₂_same.2 fun script _ => follows_ops script timed)

/-! ## What a program that follows a script begins with -/

theorem Follows.nil (hf : Follows [] script) : script = ⟨0, .drop⟩ := by
  generalize hops : ([] : List (Op ε)) = ops at hf
  cases hf with
  | ending e =>
    cases e <;> cases hops
    rfl
  | syncWait => cases hops

theorem Follows.exit (hf : Follows (.exit error :: ops) script) :
    script = ⟨0, .exit error⟩ ∧ ops = [] := by
  generalize hops : .exit error :: ops = ops' at hf
  cases hf with
  | ending e =>
    cases e <;> cases hops
    exact ⟨rfl, rfl⟩
  | syncWait => cases hops

theorem Follows.sync (hf : Follows (.sync :: ops) script) :
    ∃ error, script = ⟨0, .syncExit error⟩ ∧ ops = [.exit error] := by
  generalize hops : .sync :: ops = ops' at hf
  cases hf with
  | ending e =>
    cases e <;> cases hops
    exact ⟨_, rfl, rfl⟩
  | syncWait => cases hops

/-- A round is over. -/
theorem Follows.after (hf : Follows ops script) (hpos : 0 < script.rounds) :
    Follows (Op.after ops) ⟨script.rounds - 1, script.ending⟩ := by
  cases hf with
  | ending => cases hpos
  | @syncWait timed more ops rounds e hf =>
    cases more with
    | zero => simpa [Op.after] using hf
    | succ more =>
      have hrounds : more + 1 + 1 + rounds - 1 = more + 1 + rounds := by omega
      simpa [Op.after, hrounds] using hf.syncWait timed more

theorem Follows.pos_of_syncWait (hf : Follows (.syncWait timed more :: ops) script) :
    0 < script.rounds := by
  generalize hops : .syncWait timed more :: ops = ops' at hf
  cases hf with
  | ending e => cases e <;> cases hops
  | @syncWait timed more _ rounds =>
    show 0 < more + 1 + rounds
    omega

namespace Threads

open History

/-! ## On track -/

/-- The thread of the participant `i` has done what its script says for the phases so far. -/
inductive OnTrack (h : History ε) (i : Nat) (script : Script ε) (th : Thread ε) : Prop
  | idle : th.reached? = none → ¬ h.Exited i → h.syncs i = h.phase → h.phase ≤ script.rounds →
      Follows th.todo ⟨script.rounds - h.phase, script.ending⟩ →
      th.results.toList = List.replicate h.phase (.ok ()) → OnTrack h i script th
  | blocked {k} : th.reached? = some k → k < script.rounds →
      Follows th.todo ⟨script.rounds - k, script.ending⟩ →
      th.results.toList = List.replicate k (.ok ()) → OnTrack h i script th
  /-- The last sync, which does not block, was accepted. -/
  | synced {error : Option ε} : th.reached? = none → ¬ h.Exited i →
      script.ending = .syncExit error → h.syncs i = script.rounds + 1 → th.todo = [.exit error] →
      th.results.toList = List.replicate (script.rounds + 1) (.ok ()) → OnTrack h i script th
  | exited {error : Option ε} : (∀ e, .exited i e ∈ h ↔ e = error) →
      script.ending = .exit error ∧ h.syncs i = script.rounds ∨
        script.ending = .syncExit error ∧ h.syncs i = script.rounds + 1 →
      th.results.toList = List.replicate (h.syncs i) (.ok ()) → OnTrack h i script th

/-- The thread of the participant `i` has run out of time in the current phase. -/
structure Failed (h : History ε) (i : Nat) (script : Script ε) (th : Thread ε) : Prop where
  arrived : h.syncs i = h.phase + 1
  lt : h.phase < script.rounds
  results : ∀ k < h.phase, th.results.toList[k]? = some (.ok ())

/-- The phase is over for good. -/
def Frozen (s : Threads ε) : Prop :=
  ∀ t, (hastyMachine ε).Reaches s t → t.barrier.phase ≤ s.barrier.phase

variable {n i : Nat} {h es : History ε} {s t : Threads ε} {a : Label} {th th' : Thread ε}
  {b b' : Barrier ε}

theorem Frozen.step (hfrozen : Frozen s) (he : Effect s a es t) :
    Frozen t ∧ t.barrier.phase = s.barrier.phase := by
  have hphase : t.barrier.phase = s.barrier.phase := by
    cases he.conducted with
    | rest _ hphase => exact hphase
    | complete =>
      have hle := hfrozen s.completed he.reaches
      exact absurd hle (Nat.not_succ_le_self _)
    | giveUp _ _ _ hb => rw [hb]
  exact ⟨fun u hr => hphase ▸ hfrozen u (he.reaches.trans hr), hphase⟩

/-! ## What a step keeps -/

/-- Others may go on, and complete phases only if the thread has arrived. -/
theorem OnTrack.rest (hon : OnTrack h i script th) (hp' : Pace n (es ++ h) b) (hlt : i < n)
    (hes : ∀ e ∈ es, e.participant? ≠ some i) (htodo : th'.todo = th.todo)
    (hresults : th'.results = th.results) (hreached : th'.reached? = th.reached?) :
    OnTrack (es ++ h) i script th' := by
  have hx : Exited i (es ++ h) ↔ h.Exited i := exited_append_of_ne hes
  have hsyncs : syncs i (es ++ h) = h.syncs i := syncs_append_of_ne hes
  cases hon with
  | idle hr hnx hs hle hfollows hres =>
    have hphase : (es ++ h).phase = h.phase := by
      have := hp'.phase_le i hlt (mt hx.1 hnx)
      have := phase_append es h
      omega
    rw [← hreached] at hr
    rw [← htodo] at hfollows
    rw [← hresults] at hres
    exact .idle hr (mt hx.1 hnx) (hsyncs.trans (hs.trans hphase.symm)) (hphase ▸ hle)
      (hphase ▸ hfollows) (hphase ▸ hres)
  | blocked hr hlt hfollows hres =>
    exact .blocked (hreached ▸ hr) hlt (htodo ▸ hfollows) (hresults ▸ hres)
  | synced hr hnx hending hs htodo' hres =>
    exact .synced (hreached ▸ hr) (mt hx.1 hnx) hending (hsyncs.trans hs) (htodo.trans htodo')
      (hresults ▸ hres)
  | exited hevent hending hres =>
    refine .exited (fun e => (exited_mem_append_of_ne hes).trans (hevent e)) ?_ ?_
    · rwa [hsyncs]
    · rwa [hsyncs, hresults]

section
variable (hon : OnTrack h i script th) (hf : Fits h i th)
include hon hf

theorem OnTrack.of_blocked {k : Nat} (hr : th.reached? = some k) :
    k < script.rounds ∧ Follows th.todo ⟨script.rounds - k, script.ending⟩ ∧
      th.results.toList = List.replicate k (.ok ()) := by
  cases hon with
  | idle hnone | synced hnone =>
    rw [hr] at hnone
    cases hnone
  | blocked hr' hlt hfollows hres =>
    rw [hr'] at hr
    cases hr
    exact ⟨hlt, hfollows, hres⟩
  | exited hevent =>
    exact absurd ⟨_, (hevent _).2 rfl⟩ (hf.blocked k hr).1

/-- A thread that is not blocked and has something left to do. -/
theorem OnTrack.of_todo {op : Op ε} {ops : List (Op ε)} (hb : th.blocked = none)
    (htodo : th.todo = op :: ops) :
    (¬ h.Exited i ∧ h.syncs i = h.phase ∧ h.phase ≤ script.rounds ∧
      Follows th.todo ⟨script.rounds - h.phase, script.ending⟩ ∧
      th.results.toList = List.replicate h.phase (.ok ())) ∨
    ∃ error, ¬ h.Exited i ∧ script.ending = .syncExit error ∧ h.syncs i = script.rounds + 1 ∧
      th.todo = [.exit error] ∧
      th.results.toList = List.replicate (script.rounds + 1) (.ok ()) := by
  cases hon with
  | idle _ hx hs hle hfollows hres => exact .inl ⟨hx, hs, hle, hfollows, hres⟩
  | blocked hr =>
    rw [Thread.reached?, hb] at hr
    cases hr
  | synced _ hx hending hs htodo hres => exact .inr ⟨_, hx, hending, hs, htodo, hres⟩
  | exited hevent =>
    rw [hf.gone ⟨_, (hevent _).2 rfl⟩] at htodo
    cases htodo

theorem OnTrack.sync {ops : List (Op ε)} (hb : th.blocked = none) (htodo : th.todo = .sync :: ops) :
    OnTrack (.synced i :: h) i script th.synced := by
  rcases hon.of_todo hf hb htodo with ⟨hx, hs, hle, hfollows, hres⟩ | ⟨error, -, -, -, htodo', -⟩
  · rw [htodo] at hfollows
    obtain ⟨error, hscript, rfl⟩ := hfollows.sync
    obtain ⟨hrounds, hending⟩ := Script.mk.inj hscript
    have hphase : h.phase = script.rounds := by omega
    refine .synced rfl (mt exited_synced.1 hx) hending ?_ ?_ ?_
    · simp [hs, hphase]
    · simp [Thread.synced, htodo, Op.after]
    · rw [← hphase, List.replicate_succ', ← hres]
      exact Queue.toList_push _ _
  · rw [htodo'] at htodo
    cases htodo

theorem OnTrack.exit {error : Option ε} {ops : List (Op ε)} (hb : th.blocked = none)
    (htodo : th.todo = .exit error :: ops) :
    OnTrack (.exited i error :: h) i script { th with todo := [] } := by
  have hevent (hx : ¬ h.Exited i) (e : Option ε) :
      .exited i e ∈ .exited i error :: h ↔ e = error := by
    have hno : .exited i e ∉ h := fun hm => hx ⟨e, hm⟩
    simp [hno]
  rcases hon.of_todo hf hb htodo with ⟨hx, hs, hle, hfollows, hres⟩ |
    ⟨error', hx, hending, hs, htodo', hres⟩
  · rw [htodo] at hfollows
    obtain ⟨hscript, -⟩ := hfollows.exit
    obtain ⟨hrounds, hending⟩ := Script.mk.inj hscript
    refine .exited (hevent hx) (.inl ⟨hending, ?_⟩) (hs ▸ hres)
    rw [syncs_exited]
    omega
  · rw [htodo'] at htodo
    cases htodo
    exact .exited (hevent hx) (.inr ⟨hending, hs⟩) (hs ▸ hres)

variable (hp : Pace n h s.barrier)
include hp

theorem OnTrack.resume {bl : Blocked} (hi : i < n) (hb : th.blocked = some bl)
    (hlt : bl.reached < s.barrier.phase) : OnTrack h i script th.synced := by
  have hr := Thread.reached?_of_blocked hb
  obtain ⟨hk, hfollows, hres⟩ := hon.of_blocked hf hr
  obtain ⟨hx, hsyncs⟩ := hf.blocked _ hr
  have hphase : h.phase = bl.reached + 1 := by
    have := hp.phase_le i hi hx
    rw [hp.phase] at hlt
    omega
  refine .idle rfl hx (hsyncs.trans hphase.symm) (hphase ▸ hk) ?_ ?_
  · rw [hphase, ← Nat.sub_sub]
    exact hfollows.after (Nat.sub_pos_of_lt hk)
  · rw [hphase, List.replicate_succ', ← hres]
    exact Queue.toList_push _ _

theorem OnTrack.late {bl : Blocked} (hb : th.blocked = some bl)
    (hle : s.barrier.phase ≤ bl.reached) : Failed h i script (th.fail (.timedOut bl.reached)) := by
  have hr := Thread.reached?_of_blocked hb
  obtain ⟨hk, -, hres⟩ := hon.of_blocked hf hr
  have hsyncs := (hf.blocked _ hr).2
  have hphase := hf.phase_eq hp hr hle
  refine ⟨hphase ▸ hsyncs, hphase ▸ hk, ?_⟩
  intro k hk
  have hlist : (th.fail (.timedOut bl.reached)).results.toList =
      List.replicate bl.reached (.ok ()) ++ [.error (.timedOut bl.reached)] :=
    hres ▸ Queue.toList_push _ _
  rw [hphase] at hk
  rw [hlist, List.getElem?_append_left (by simpa using hk), List.getElem?_replicate, if_pos hk]

theorem OnTrack.not_refused {op : Op ε} {ops : List (Op ε)} {e : SyncError} (hb : th.blocked = none)
    (htodo : th.todo = op :: ops) (hsync : op = .sync ∨ ∃ timed more, op = .syncWait timed more)
    (hs : s.barrier.sync i = some (.error e)) : False := by
  have hsyncs := (hp.of_refused hs).2.2
  rcases hon.of_todo hf hb htodo with ⟨-, hsyncs', -⟩ | ⟨error, -, -, -, htodo', -⟩
  · omega
  · rw [htodo'] at htodo
    cases htodo
    rcases hsync with h | ⟨timed, more, h⟩ <;> cases h

theorem OnTrack.syncWait {timed : Bool} {more : Nat} {ops : List (Op ε)} (hb : th.blocked = none)
    (htodo : th.todo = .syncWait timed more :: ops) :
    OnTrack (.synced i :: h) i script
      { th with blocked := some ⟨timed, s.barrier.phase, .awake⟩ } := by
  rcases hon.of_todo hf hb htodo with ⟨hx, hs, hle, hfollows, hres⟩ | ⟨error, -, -, -, htodo', -⟩
  · refine .blocked (congrArg some hp.phase) ?_ hfollows hres
    rw [htodo] at hfollows
    have := hfollows.pos_of_syncWait
    exact Nat.lt_of_sub_pos this
  · rw [htodo'] at htodo
    cases htodo

end

/-- Results are only added. -/
theorem Turn.getElem?_results (hturn : Turn s i a es th th') {k : Nat} {r : Except SyncError Unit}
    (hk : th.results.toList[k]? = some r) : th'.results.toList[k]? = some r := by
  have hpush (r' : Except SyncError Unit) : (th.results.push r').toList[k]? = some r := by
    rw [Queue.toList_push, List.getElem?_append_left (List.getElem?_eq_some_iff.1 hk).1, hk]
  cases hturn with
  | rest _ hresults => rw [hresults, hk]
  | resume | sync => exact hpush (.ok ())
  | late | refused => exact hpush (.error _)
  | syncWait | exit => exact hk

theorem Failed.turn (hfailed : Failed h i script th) (hp : Pace n h s.barrier)
    (hp' : Pace n (es ++ h) t.barrier) (hphase : t.barrier.phase = s.barrier.phase)
    (hturn : Turn s i a es th th') : Failed (es ++ h) i script th' := by
  have hsame : (es ++ h).phase = h.phase := by rw [← hp.phase, ← hp'.phase, hphase]
  refine ⟨?_, hsame ▸ hfailed.lt, ?_⟩
  · have h1 := hfailed.arrived
    have h2 := hp'.syncs_le i
    rw [syncs_append] at h2 ⊢
    omega
  · intro k hk
    exact hturn.getElem?_results (hfailed.results k (hsame ▸ hk))

/-- The thread of the participant `i` has done what its script says, or has run out of time in a
phase that is over for good. -/
def Sound (s : Threads ε) (h : History ε) (i : Nat) (script : Script ε) (th : Thread ε) : Prop :=
  OnTrack h i script th ∨ Frozen s ∧ Failed h i script th

theorem Sound.step (hsound : Sound s h i script th) (ht : Tracked n h s) (htimely : Timely s a)
    (he : Effect s a es t) (hth : s.threads[i]? = some th) (hturn : Turn s i a es th th') :
    Sound t (es ++ h) i script th' := by
  have hp := ht.recorded.pace
  have hp' := (ht.step he).recorded.pace
  have hf := ht.fits i th hth
  have hi := ht.lt hth
  rcases hsound with hon | ⟨hfrozen, hfailed⟩
  · cases hturn with
    | rest htodo hresults hreached hes =>
      exact .inl (hon.rest hp' hi hes htodo hresults hreached)
    | resume hb hlt => exact .inl (hon.resume hf hp hi hb hlt)
    | @late th bl hb hle =>
      have hfrozen : Frozen s := fun u hr => by
        rw [hp.phase, hf.phase_eq hp (Thread.reached?_of_blocked hb) hle]
        exact htimely bl ((blocked?_of_getElem? hth).trans hb) hle u hr
      exact .inr ⟨(hfrozen.step he).1, hon.late hf hp hb hle⟩
    | refused hb htodo hsync hs => exact (hon.not_refused hf hp hb htodo hsync hs).elim
    | sync hb htodo => exact .inl (hon.sync hf hb htodo)
    | syncWait hb htodo => exact .inl (hon.syncWait hf hp hb htodo)
    | exit hb htodo => exact .inl (hon.exit hf hb htodo)
  · obtain ⟨hfrozen', hphase⟩ := hfrozen.step he
    exact .inr ⟨hfrozen', hfailed.turn hp hp' hphase hturn⟩

end Threads

end Lockstep.Barrier
