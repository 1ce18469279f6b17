import Lockstep.Proofs.Barrier.Phases

/-!
# Well-formed barriers

`Barrier.WellFormed n b` is what the slots and the counters of a barrier for `n` participants have to
do with one another: the counters count slots, no participant is more than one phase behind, and the
slots of handles that were not given out are untouched. `Session.WellFormed` says the same of a barrier
with its handles: a handle that can still be used has the slot of a participant that takes part, and
while its call is blocked the slot holds the phase in which it arrived.

A fresh session is well formed, and every call keeps it so, whatever came before
(`WellFormed.step`). `Unfailing` lists the checks that the operations make of a barrier; in a
well-formed session none of them fails (`WellFormed.unfailing`).
-/

set_option autoImplicit false

namespace Lockstep

/-- The last arrival of a participant that takes part was in this phase or in the one before. There was
none only if no phase was completed yet. -/
def Slot.IsRecent (phase : Nat) : Slot → Prop
  | .active (some reached) => reached = phase ∨ reached + 1 = phase
  | .active none => phase = 0
  | .done => True

namespace Barrier

variable {ε : Type} {n p : Nat} {b b' : Barrier ε} {slot slot' : Slot}

structure WellFormed (n : Nat) (b : Barrier ε) : Prop where
  total : b.total = n
  size : b.slots.length = n
  arrived : b.arrived = b.slots.countP (·.hasArrived b.phase)
  finished : b.finished = b.slots.countP (· == .done)
  issued_le : b.issued ≤ n
  /-- Nobody has used a handle that was not given out. -/
  untouched : ∀ p, b.issued ≤ p → p < n → b.slots[p]? = some (.active none)
  recent : ∀ slot ∈ b.slots, slot.IsRecent b.phase

theorem WellFormed.fresh (n : Nat) : WellFormed n (fresh n : Barrier ε) where
  total := rfl
  size := List.length_replicate
  arrived := by simp [Barrier.fresh, List.countP_replicate, Slot.hasArrived]
  finished := by simp [Barrier.fresh, List.countP_replicate]
  issued_le := Nat.zero_le n
  untouched p _ hlt := by simp [Barrier.fresh, hlt]
  recent slot hm := by
    obtain ⟨-, rfl⟩ := List.mem_replicate.1 hm
    rfl

/-! ## What the counters say -/

section
variable (hb : WellFormed n b)
include hb

/-- Who has left has arrived. -/
theorem WellFormed.finished_le : b.finished ≤ b.arrived := by
  rw [hb.finished, hb.arrived]
  apply List.countP_mono_left
  intro slot _ hdone
  rw [eq_of_beq hdone]
  rfl

theorem WellFormed.arrived_le : b.arrived ≤ n := by
  rw [hb.arrived, ← hb.size]
  exact List.countP_le_length

/-- A phase is complete only if every slot says so. -/
theorem WellFormed.hasArrived (hc : b.isComplete = true) (hm : slot ∈ b.slots) :
    slot.hasArrived b.phase = true := by
  have hle := isComplete_iff.1 hc
  have harrived := hb.arrived_le
  rw [hb.total] at hle
  have hall : b.slots.countP (·.hasArrived b.phase) = b.slots.length := by
    rw [← hb.arrived, hb.size]
    omega
  exact List.countP_eq_length.1 hall slot hm

theorem WellFormed.missing_eq_nil (hc : b.isComplete = true) : b.missing = [] := by
  rw [List.eq_nil_iff_forall_not_mem]
  intro p hp
  obtain ⟨slot, hslot, hnot⟩ := mem_missing_iff.1 hp
  rw [hb.hasArrived hc (List.mem_of_getElem? hslot)] at hnot
  cases hnot

end

/-! ## What each operation keeps -/

/-- Where one entry is exchanged, the count changes by what the two count. -/
theorem countP_set_add {α : Type} (f : α → Bool) {l : List α} {i : Nat} {x : α} (y : α)
    (hx : l[i]? = some x) :
    (l.set i y).countP f + (f x).toNat = l.countP f + (f y).toNat := by
  induction l generalizing i with
  | nil => simp at hx
  | cons a l ih =>
    cases i with
    | zero =>
      obtain rfl : a = x := by simpa using hx
      cases hfa : f a <;> cases hfy : f y <;> simp [hfa, hfy]
    | succ i =>
      have htail := ih (by simpa using hx)
      rw [List.set_cons_succ, List.countP_cons, List.countP_cons]
      omega

section
variable (hb : WellFormed n b)
include hb

/-- The participant `p`, whose handle was given out, goes on to another slot. -/
theorem WellFormed.set {arrived finished : Nat} {errors nextErrors : List ε} (hlt : p < b.issued)
    (hp : b.slots[p]? = some slot) (hrecent : slot'.IsRecent b.phase)
    (harrived : arrived + (slot.hasArrived b.phase).toNat =
      b.arrived + (slot'.hasArrived b.phase).toNat)
    (hfinished : finished + (slot == .done).toNat = b.finished + (slot' == .done).toNat) :
    WellFormed n
      { b with slots := b.slots.set p slot', arrived, finished, errors, nextErrors } where
  total := hb.total
  size := by
    rw [List.length_set]
    exact hb.size
  arrived := by
    have hcount := countP_set_add (·.hasArrived b.phase) slot' hp
    have hold := hb.arrived
    show arrived = (b.slots.set p slot').countP (·.hasArrived b.phase)
    omega
  finished := by
    have hcount := countP_set_add (· == .done) slot' hp
    have hold := hb.finished
    show finished = (b.slots.set p slot').countP (· == .done)
    omega
  issued_le := hb.issued_le
  untouched q hle hq := by
    have hne : p ≠ q := Nat.ne_of_lt (Nat.lt_of_lt_of_le hlt hle)
    rw [List.getElem?_set_ne hne]
    exact hb.untouched q hle hq
  recent slot hm := by
    rcases List.mem_or_eq_of_mem_set hm with hm | rfl
    · exact hb.recent slot hm
    · exact hrecent

theorem WellFormed.sync (hlt : p < b.issued) (hs : b.sync p = some (.ok b')) :
    WellFormed n b' := by
  obtain ⟨reached, hslot, hne, rfl⟩ := sync_eq_ok_iff.1 hs
  exact hb.set hlt hslot (.inl rfl) (by simp [Slot.hasArrived, hne]) rfl

theorem WellFormed.exit {error : Option ε} (hlt : p < b.issued)
    (hs : b.exit p error = some b') : WellFormed n b' := by
  obtain ⟨reached, hslot, ⟨hnow, rfl⟩ | ⟨hnow, rfl⟩⟩ := exit_eq_some_iff.1 hs
  · exact hb.set hlt hslot trivial (by simp [Slot.hasArrived, hnow]) (by simp)
  · exact hb.set hlt hslot trivial (by simp [Slot.hasArrived, hnow]) (by simp)

theorem WellFormed.issue {issued : Nat} (hge : b.issued ≤ issued) (hle : issued ≤ n) :
    WellFormed n { b with issued } :=
  { hb with
    issued_le := hle
    untouched := fun p hp hlt => hb.untouched p (Nat.le_trans hge hp) hlt }

/-- A completed phase is one that everyone has reached, so nobody is two phases behind in the next. -/
theorem WellFormed.advance (hc : b.isComplete = true) : WellFormed n b.advance.2 where
  total := hb.total
  size := hb.size
  arrived := by
    show b.finished = b.slots.countP (·.hasArrived (b.phase + 1))
    rw [hb.finished]
    refine List.countP_congr fun slot hm => ?_
    have harrived := hb.hasArrived hc hm
    cases slot with
    | done => simp [Slot.hasArrived]
    | active reached =>
      obtain rfl : reached = some b.phase := by simpa [Slot.hasArrived] using harrived
      simp [Slot.hasArrived]
  finished := hb.finished
  issued_le := hb.issued_le
  untouched p hle hlt := by
    -- such a participant has not arrived, so the phase would not be complete
    have hslot := hb.untouched p hle hlt
    have harrived := hb.hasArrived hc (List.mem_of_getElem? hslot)
    simp [Slot.hasArrived] at harrived
  recent slot hm := by
    have harrived := hb.hasArrived hc hm
    cases slot with
    | done => trivial
    | active reached =>
      obtain rfl : reached = some b.phase := by simpa [Slot.hasArrived] using harrived
      exact .inr rfl

end

/-! ## Barriers with their handles -/

/-- What the slot of a participant is, by the state of its handle. -/
def Handle.Fits : Handle → Slot → Prop
  | .free, slot => slot ≠ .done
  | .blocked _ reached, slot => slot = .active (some reached)
  | .gone, _ => True

namespace Session

variable {s : Session ε} {handle : Handle}

structure WellFormed (n : Nat) (s : Session ε) : Prop where
  barrier : s.barrier.WellFormed n
  issued : s.handles.length = s.barrier.issued
  handles : ∀ (p : Nat) (handle : Handle), s.handles[p]? = some handle →
    ∃ slot, s.barrier.slots[p]? = some slot ∧ handle.Fits slot

theorem WellFormed.fresh (n : Nat) : WellFormed n (fresh n : Session ε) where
  barrier := .fresh n
  issued := rfl
  handles p handle hp := by simp [Session.fresh] at hp

section
variable (hs : WellFormed n s)
include hs

theorem WellFormed.lt_issued (hp : s.handles[p]? = some handle) : p < s.barrier.issued :=
  hs.issued ▸ (List.getElem?_eq_some_iff.1 hp).1

/-- The slot of a handle that can still be used is that of a participant that takes part. -/
theorem WellFormed.active (hp : s.handles[p]? = some handle) (hlive : handle ≠ .gone) :
    ∃ reached, s.barrier.slots[p]? = some (.active reached) := by
  obtain ⟨slot, hslot, hfits⟩ := hs.handles p handle hp
  cases slot with
  | active reached => exact ⟨reached, hslot⟩
  | done =>
    cases handle with
    | free => exact absurd rfl hfits
    | blocked => cases hfits
    | gone => exact absurd rfl hlive

/-- A call touches the slot and the handle of one participant. -/
theorem WellFormed.update (hb : b.WellFormed n) (hissued : b.issued = s.barrier.issued)
    (hother : ∀ q, q ≠ p → b.slots[q]? = s.barrier.slots[q]?) (hp : b.slots[p]? = some slot)
    (hfits : handle.Fits slot) : WellFormed n (s.update p handle b) where
  barrier := hb
  issued := by
    rw [Session.update, List.length_set, hissued]
    exact hs.issued
  handles q handle' hq := by
    rcases handles_update hq with ⟨rfl, rfl⟩ | ⟨hne, hq⟩
    · exact ⟨slot, hp, hfits⟩
    · obtain ⟨slot', hslot', hfits'⟩ := hs.handles q handle' hq
      exact ⟨slot', (hother q hne).trans hslot', hfits'⟩

/-- A participant arrives, and goes on with its handle or is blocked in its call. -/
theorem WellFormed.arrive (hfree : s.handles[p]? = some .free)
    (hsync : s.barrier.sync p = some (.ok b))
    (hfits : handle.Fits (.active (some s.barrier.phase))) :
    WellFormed n (s.update p handle b) := by
  have hb := hs.barrier.sync (hs.lt_issued hfree) hsync
  obtain ⟨reached, hslot, -, rfl⟩ := sync_eq_ok_iff.1 hsync
  have hlt : p < s.barrier.slots.length := (List.getElem?_eq_some_iff.1 hslot).1
  refine hs.update hb rfl ?_ (List.getElem?_set_self hlt) hfits
  intro q hne
  exact List.getElem?_set_ne (Ne.symm hne)

theorem WellFormed.leave {error : Option ε} (hfree : s.handles[p]? = some .free)
    (hexit : s.barrier.exit p error = some b) : WellFormed n (s.update p .gone b) := by
  have hb := hs.barrier.exit (hs.lt_issued hfree) hexit
  obtain ⟨reached, hslot, hcase⟩ := exit_eq_some_iff.1 hexit
  have hlt : p < s.barrier.slots.length := (List.getElem?_eq_some_iff.1 hslot).1
  have hfields : b.issued = s.barrier.issued ∧ b.slots = s.barrier.slots.set p .done := by
    rcases hcase with ⟨-, rfl⟩ | ⟨-, rfl⟩ <;> exact ⟨rfl, rfl⟩
  obtain ⟨hissued, hslots⟩ := hfields
  refine hs.update hb hissued ?_ (hslots ▸ List.getElem?_set_self hlt) trivial
  intro q hne
  rw [hslots, List.getElem?_set_ne (Ne.symm hne)]

/-- A handle is dropped, or its call returns: the barrier stays as it is. -/
theorem WellFormed.release (hp : s.handles[p]? = some handle) {handle' : Handle}
    (hfits : ∀ slot, handle.Fits slot → handle'.Fits slot) :
    WellFormed n (s.update p handle' s.barrier) := by
  obtain ⟨slot, hslot, hold⟩ := hs.handles p handle hp
  exact hs.update hs.barrier rfl (fun _ _ => rfl) hslot (hfits slot hold)

theorem WellFormed.move (m : Move ε) : WellFormed n (s.move m).2 := by
  cases m with
  | sync p =>
    by_cases hf : s.isFree p = true
    · cases hsync : s.barrier.sync p with
      | none => simpa [Session.move, hf, hsync] using hs
      | some r =>
        cases r with
        | error e => simpa [Session.move, hf, hsync] using hs
        | ok b =>
          have harrive : WellFormed n (s.update p .free b) :=
            hs.arrive (isFree_iff.1 hf) hsync fun h => by cases h
          simpa [Session.move, hf, hsync] using harrive
    · simpa [Session.move, hf] using hs
  | exit p error =>
    by_cases hf : s.isFree p = true
    · cases hexit : s.barrier.exit p error with
      | none => simpa [Session.move, hf, hexit] using hs
      | some b =>
        have hleave := hs.leave (isFree_iff.1 hf) hexit
        simpa [Session.move, hf, hexit] using hleave
    · simpa [Session.move, hf] using hs
  | drop p =>
    by_cases hf : s.isFree p = true
    · have hdrop : WellFormed n (s.update p .gone s.barrier) :=
        hs.release (isFree_iff.1 hf) fun _ _ => trivial
      simpa [Session.move, hf] using hdrop
    · simpa [Session.move, hf] using hs

/-- More handles are given out, all of them free. -/
theorem WellFormed.issue {k : Nat} (hk : s.barrier.issued + k ≤ n) :
    WellFormed n { barrier := { s.barrier with issued := s.barrier.issued + k },
                   handles := s.handles ++ List.replicate k .free } where
  barrier := hs.barrier.issue (Nat.le_add_right _ k) hk
  issued := by
    rw [List.length_append, List.length_replicate, hs.issued]
  handles p handle hp := by
    by_cases hlt : p < s.handles.length
    · rw [List.getElem?_append_left hlt] at hp
      exact hs.handles p handle hp
    · have hle := Nat.le_of_not_lt hlt
      have hissued := hs.issued
      rw [List.getElem?_append_right hle, List.getElem?_replicate] at hp
      split at hp
      · obtain rfl := Option.some.inj hp
        refine ⟨_, hs.barrier.untouched p (by omega) (by omega), fun h => ?_⟩
        cases h
      · cases hp

theorem WellFormed.syncWait (p : Nat) (timed : Bool) : WellFormed n (s.syncWait p timed).2 := by
  by_cases hf : s.isFree p = true
  · cases hsync : s.barrier.sync p with
    | none => simpa [Session.syncWait, hf, hsync] using hs
    | some r =>
      cases r with
      | error e => simpa [Session.syncWait, hf, hsync] using hs
      | ok b =>
        have hphase : b.phase = s.barrier.phase := by
          obtain ⟨_, -, -, rfl⟩ := sync_eq_ok_iff.1 hsync
          rfl
        have harrive : WellFormed n (s.update p (.blocked timed b.phase) b) :=
          hs.arrive (isFree_iff.1 hf) hsync (by rw [hphase]; rfl)
        simpa [Session.syncWait, hf, hsync] using harrive
  · simpa [Session.syncWait, hf] using hs

/-- A blocked call returns. -/
theorem WellFormed.unblock {timed : Bool} {reached : Nat}
    (hp : s.handles[p]? = some (.blocked timed reached)) :
    WellFormed n (s.update p .free s.barrier) := by
  refine hs.release hp fun slot hslot => ?_
  rintro rfl
  cases hslot

theorem WellFormed.join (p : Nat) : WellFormed n (s.join p).2 := by
  unfold Session.join
  split
  · rename_i hp
    split
    · exact hs
    · exact hs.unblock hp
  · exact hs

theorem WellFormed.giveUp (p : Nat) : WellFormed n (s.giveUp p).2 := by
  unfold Session.giveUp
  split
  · rename_i hp
    split
    · exact hs.unblock hp
    · exact hs.unblock hp
  · exact hs
  · exact hs

end

theorem WellFormed.moves (hs : WellFormed n s) (ms : List (Move ε)) :
    WellFormed n (s.moves ms).2 := by
  induction ms generalizing s with
  | nil => exact hs
  | cons m ms ih => exact ih (hs.move m)

theorem WellFormed.wait (hs : WellFormed n s) (kind : WaitKind) (during : List (Move ε)) :
    WellFormed n (s.wait kind during).2 := by
  have hfound := hs.moves during
  by_cases hc : (s.moves during).2.barrier.isComplete = true
  · rw [wait_eq_of_complete kind hc]
    exact ⟨hfound.barrier.advance hc, hfound.issued, hfound.handles⟩
  · rw [wait_of_not_complete kind hc]
    exact hfound

/-- **Every call keeps a session well formed.** -/
theorem WellFormed.step (hs : WellFormed n s) (c : Call ε) : WellFormed n (s.step c).2 := by
  have htotal := hs.barrier.total
  have hle := hs.barrier.issued_le
  cases c with
  | issue =>
    by_cases hlt : s.barrier.issued < s.barrier.total
    · have hnext := hs.issue (k := 1) (by omega)
      simpa [Session.step, Barrier.issue, hlt] using hnext
    · simpa [Session.step, Barrier.issue, hlt] using hs
  | issueAll =>
    have hrest := hs.issue (k := s.barrier.total - s.barrier.issued) (by omega)
    have hmax : max s.barrier.issued s.barrier.total =
        s.barrier.issued + (s.barrier.total - s.barrier.issued) := by omega
    simpa [Session.step, Barrier.issueAll, hmax, List.map_const'] using hrest
  | move m => exact hs.move m
  | syncWait p timed => exact hs.syncWait p timed
  | join p => exact hs.join p
  | giveUp p => exact hs.giveUp p
  | wait kind during => exact hs.wait kind during
  | inspect => exact hs

theorem WellFormed.run (hs : WellFormed n s) (cs : List (Call ε)) : WellFormed n (s.run cs).2 := by
  induction cs generalizing s with
  | nil => exact hs
  | cons c cs ih => exact ih (hs.step c)

/-! ## The checks of the operations -/

/-- What the operations take for granted of the barrier they find and of the one they leave. -/
structure Unfailing (s : Session ε) : Prop where
  /-- Whoever syncs has a slot and has not left, and the arrivals are never too many. -/
  sync : ∀ p, s.isFree p = true →
    ∃ r, s.barrier.sync p = some r ∧ ∀ b, r = .ok b → b.arrived ≤ b.total
  exit : ∀ p error, s.isFree p = true →
    ∃ b, s.barrier.exit p error = some b ∧ b.arrived ≤ b.total
  /-- A blocked call finds the phase in which it arrived in the slot of its participant. -/
  reached : ∀ (p : Nat) (timed : Bool) (k : Nat), s.handles[p]? = some (.blocked timed k) →
    s.barrier.slots[p]? = some (.active (some k))
  /-- Nobody is missing from a phase that is completed. -/
  advance : s.barrier.isComplete = true → s.barrier.missing = []

theorem WellFormed.unfailing (hs : WellFormed n s) : Unfailing s where
  sync p hf := by
    have hfree := isFree_iff.1 hf
    obtain ⟨reached, hslot⟩ := hs.active hfree fun h => by cases h
    obtain ⟨r, hr⟩ := exists_sync hslot
    refine ⟨r, hr, ?_⟩
    rintro b rfl
    have hb := hs.barrier.sync (hs.lt_issued hfree) hr
    exact hb.total ▸ hb.arrived_le
  exit p error hf := by
    have hfree := isFree_iff.1 hf
    obtain ⟨reached, hslot⟩ := hs.active hfree fun h => by cases h
    obtain ⟨b, hexit⟩ := exists_exit hslot error
    have hb := hs.barrier.exit (hs.lt_issued hfree) hexit
    exact ⟨b, hexit, hb.total ▸ hb.arrived_le⟩
  reached p timed k hp := by
    obtain ⟨slot, hslot, rfl⟩ := hs.handles p _ hp
    exact hslot
  advance hc := hs.barrier.missing_eq_nil hc

end Session

/-! ## The handles that are given out -/

/-- The participants whose handles an answer gives out. -/
def Answer.given : Answer ε → List Nat
  | .issued p => p.toList
  | .issuedAll ps => ps
  | _ => []

namespace Session

variable {s : Session ε}

theorem length_handles_update (s : Session ε) (p : Nat) (handle : Handle) (b : Barrier ε) :
    (s.update p handle b).handles.length = s.handles.length := List.length_set

theorem length_handles_move (s : Session ε) (m : Move ε) :
    (s.move m).2.handles.length = s.handles.length := by
  cases m with
  | sync p | exit p error =>
    simp only [move]
    split
    · split <;> simp [length_handles_update]
    · rfl
  | drop p =>
    simp only [move]
    split
    · exact length_handles_update s p .gone s.barrier
    · rfl

theorem length_handles_moves (s : Session ε) (ms : List (Move ε)) :
    (s.moves ms).2.handles.length = s.handles.length := by
  induction ms generalizing s with
  | nil => rfl
  | cons m ms ih => exact (ih _).trans (length_handles_move s m)

theorem length_handles_wait (s : Session ε) (kind : WaitKind) (during : List (Move ε)) :
    (s.wait kind during).2.handles.length = s.handles.length := by
  by_cases hc : (s.moves during).2.barrier.isComplete = true
  · rw [wait_eq_of_complete kind hc]
    exact length_handles_moves s during
  · rw [wait_of_not_complete kind hc]
    exact length_handles_moves s during

/-- Only those two calls give out handles. -/
theorem given_eq_nil {c : Call ε} (hone : c ≠ .issue) (hall : c ≠ .issueAll) :
    (s.step c).1.given = [] ∧ (s.step c).2.handles.length = s.handles.length := by
  cases c with
  | issue => exact absurd rfl hone
  | issueAll => exact absurd rfl hall
  | move m => exact ⟨rfl, length_handles_move s m⟩
  | syncWait p timed =>
    simp only [step, syncWait]
    split
    · split <;> exact ⟨rfl, by simp [length_handles_update]⟩
    · exact ⟨rfl, rfl⟩
  | join p =>
    simp only [step, join]
    split
    · split <;> exact ⟨rfl, by simp [length_handles_update]⟩
    · exact ⟨rfl, rfl⟩
  | giveUp p =>
    simp only [step, giveUp]
    split
    · split <;> exact ⟨rfl, by simp [length_handles_update]⟩
    · exact ⟨rfl, rfl⟩
    · exact ⟨rfl, rfl⟩
  | wait kind during =>
    refine ⟨?_, length_handles_wait s kind during⟩
    by_cases hc : (s.moves during).2.barrier.isComplete = true
    · rw [step, wait_eq_of_complete kind hc]
      rfl
    · rw [step, wait_of_not_complete kind hc]
      rfl
  | inspect => exact ⟨rfl, rfl⟩

section
variable {n : Nat} (hs : WellFormed n s)
include hs

theorem WellFormed.issue_eq : (s.step .issue).1 =
    .issued (if s.barrier.issued < n then some s.barrier.issued else none) := by
  have htotal := hs.barrier.total
  by_cases hlt : s.barrier.issued < n
  · simp [Session.step, Barrier.issue, htotal, hlt]
  · simp [Session.step, Barrier.issue, htotal, hlt]

theorem WellFormed.issueAll_eq :
    (s.step .issueAll).1 = .issuedAll (List.range' s.barrier.issued (n - s.barrier.issued)) ∧
      (s.step .issueAll).2.barrier.issued = n := by
  have htotal := hs.barrier.total
  have hle := hs.barrier.issued_le
  simp only [Session.step, Barrier.issueAll, htotal, true_and]
  exact Nat.max_eq_right hle

/-- The handles given out by a call are the next ones. -/
theorem WellFormed.given_step (c : Call ε) :
    List.range s.barrier.issued ++ (s.step c).1.given = List.range (s.step c).2.barrier.issued := by
  by_cases hone : c = .issue
  · subst hone
    rw [hs.issue_eq]
    by_cases hlt : s.barrier.issued < n
    · simp [Session.step, Barrier.issue, hs.barrier.total, hlt, Answer.given, List.range_succ]
    · simp [Session.step, Barrier.issue, hs.barrier.total, hlt, Answer.given]
  by_cases hall : c = .issueAll
  · subst hall
    obtain ⟨hanswer, hissued⟩ := hs.issueAll_eq
    have hle := hs.barrier.issued_le
    rw [hanswer, hissued, Answer.given, List.range_eq_range', List.range_eq_range']
    have happend : List.range' 0 s.barrier.issued ++
        List.range' (0 + 1 * s.barrier.issued) (n - s.barrier.issued) =
        List.range' 0 (s.barrier.issued + (n - s.barrier.issued)) := List.range'_append
    rwa [Nat.zero_add, Nat.one_mul, Nat.add_sub_cancel' hle] at happend
  · obtain ⟨hgiven, hlength⟩ := given_eq_nil (s := s) hone hall
    rw [hgiven, List.append_nil, ← hs.issued, ← (hs.step c).issued, hlength]

end

/-- The handles given out by the calls of a history are the next ones, each once. -/
theorem WellFormed.given_run {n : Nat} (hs : WellFormed n s) (cs : List (Call ε)) :
    List.range s.barrier.issued ++ (s.run cs).1.flatMap Answer.given =
      List.range (s.run cs).2.barrier.issued := by
  induction cs generalizing s with
  | nil => exact List.append_nil _
  | cons c cs ih =>
    have htail := ih (hs.step c)
    rw [← hs.given_step c, List.append_assoc] at htail
    exact htail

/-! ## Every history -/

/-- **A barrier is well formed at every moment of every history**: a new one is, and each call keeps it
so. So no check of an operation fails, not even in the middle of a wait, when its participants have
made the moves `during`. The handles are given out in their order, each once, one by one or all that
are left. -/
theorem well_formed_at_every_moment (n : Nat) :
    (∀ s : Session ε, create n = .ok (.ok s) → WellFormed n s) ∧
    (∀ (s : Session ε) (c : Call ε), WellFormed n s → WellFormed n (s.step c).2) ∧
    ∀ (cs : List (Call ε)) (during : List (Move ε)),
      let s := ((after n cs).moves during).2
      let b := s.barrier
      WellFormed n s ∧ Unfailing s ∧ b.finished ≤ b.arrived ∧ b.arrived ≤ n ∧
      ((fresh n : Session ε).run cs).1.flatMap Answer.given = List.range b.issued ∧
      (s.step .issue).1 = .issued (if b.issued < n then some b.issued else none) ∧
      (s.step .issueAll).1 = .issuedAll (List.range' b.issued (n - b.issued)) := by
  refine ⟨?_, fun s c hs => hs.step c, fun cs during => ?_⟩
  · intro s hcreate
    obtain ⟨-, -, rfl⟩ := create_eq_ok_iff.1 hcreate
    exact .fresh n
  · intro s b
    have hafter : WellFormed n (after n cs) := (WellFormed.fresh n).run cs
    have hs : WellFormed n s := hafter.moves during
    refine ⟨hs, hs.unfailing, hs.barrier.finished_le, hs.barrier.arrived_le, ?_, hs.issue_eq,
      hs.issueAll_eq.1⟩
    have hgiven := (show WellFormed n (fresh n : Session ε) from .fresh n).given_run cs
    have hissued : b.issued = (after n cs).barrier.issued := by
      rw [← hs.issued, ← hafter.issued]
      exact length_handles_moves _ during
    rw [hissued]
    exact hgiven

end Session

end Barrier

end Lockstep
