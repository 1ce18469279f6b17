import Lockstep.Proofs.Relay.History

/-!
# In which order messages arrive

A broadcast that goes through the members of a cluster hands its message to each of them once. So of
the messages of one caller to a cluster all have arrived at a service, in the order they were sent
since it became a member, but the one that is on its way (`Recorded.order`); and if broadcasts to the
cluster do not overlap, then this holds of the messages of all callers together
(`Recorded.sequential`).
-/

set_option autoImplicit false

namespace Lockstep.Relay

/-- The message that the call of `k` still has to hand to the service. -/
def Call.awaited (cluster : String) (id k : Nat) : Call → List (Nat × Payload)
  | .walk c m left => if c = cluster ∧ id ∈ left then [(k, m)] else []
  | _ => []

namespace Traffic

/-- The message that a broadcast of the caller `k` still has to hand to the service. -/
def awaited (t : Traffic) (cluster : String) (id k : Nat) : List (Nat × Payload) :=
  ((t.call? k).map (Call.awaited cluster id k)).getD []

/-- What a step does to the broadcasts that go through a cluster. -/
inductive Carries (t : Traffic) : History → Traffic → Prop
  | lock {k cluster m} : t.call? k = some (.lock cluster m) →
      Carries t [.began k cluster m] (t.setCall k (.walk cluster m (t.relay.members cluster)))
  | enqueue {k cluster m left id} : t.call? k = some (.walk cluster m left) → id ∈ left →
      Carries t [.queued k id m]
        ({ t with relay := t.relay.enqueue m id }.setCall k (.walk cluster m (left.erase id)))
  | unlock {k cluster m} : t.call? k = some (.walk cluster m []) →
      Carries t [.ended k cluster] (t.setCall k (.over (.ok none)))
  | other {es u} : (∀ k cluster m, .began k cluster m ∉ es) → (∀ k id m, .queued k id m ∉ es) →
      (∀ k cluster, .ended k cluster ∉ es) →
      (∀ cluster id k, u.awaited cluster id k = t.awaited cluster id k) → Carries t es u

end Traffic

variable {h es : History} {t u : Traffic} {k k' id : Nat} {c c' : Call} {a : Traffic.Label}
  {cluster other : String} {m : Payload}

/-! ## Histories that go on -/

namespace History

theorem sent_append_of_not_began (hno : ∀ k cluster m, .began k cluster m ∉ es) :
    sent cluster id (es ++ h) = sent cluster id h := by
  induction es with
  | nil => rfl
  | cons e es ih =>
    have ih := ih fun k c m hm => hno k c m (List.mem_cons_of_mem e hm)
    cases e with
    | began k c m => exact absurd List.mem_cons_self (hno k c m)
    | _ => exact ih

theorem arrived_append_of_not_queued (hno : ∀ k m, .queued k id m ∉ es) :
    arrived id (es ++ h) = arrived id h := by
  induction es with
  | nil => rfl
  | cons e es ih =>
    have ih := ih fun k m hm => hno k m (List.mem_cons_of_mem e hm)
    cases e with
    | queued k i m =>
      have hne : i ≠ id := by
        rintro rfl
        exact hno k m List.mem_cons_self
      simp [hne, ih]
    | _ => exact ih

theorem arrived_append (es h : History) : arrived id (es ++ h) = arrived id h ++ arrived id es := by
  induction es with
  | nil => exact (List.append_nil _).symm
  | cons e es ih =>
    cases e with
    | queued k i m =>
      simp only [List.cons_append, arrived, ih, List.append_assoc]
    | _ => exact ih

theorem walkers_append_of_not (cluster : String) (h : History) (hbegan : ∀ k cluster m, .began k cluster m ∉ es)
    (hended : ∀ k cluster, .ended k cluster ∉ es) :
    walkers cluster (es ++ h) = walkers cluster h := by
  induction es with
  | nil => rfl
  | cons e es ih =>
    have ih := ih (fun k c m hm => hbegan k c m (List.mem_cons_of_mem e hm))
      fun k c hm => hended k c (List.mem_cons_of_mem e hm)
    cases e with
    | began k c m => exact absurd List.mem_cons_self (hbegan k c m)
    | ended k c => exact absurd List.mem_cons_self (hended k c)
    | _ => exact ih

theorem sequential_of_append (hs : Sequential cluster (es ++ h)) : Sequential cluster h := by
  induction es with
  | nil => exact hs
  | cons e es ih =>
    cases e with
    | began => exact ih hs.2
    | _ => exact ih hs

end History

/-! ## Steps -/

namespace Traffic

theorem awaited_of_call (hc : t.call? k = some c) :
    t.awaited cluster id k = c.awaited cluster id k := by
  rw [awaited, hc]
  rfl

theorem awaited_setCall (hc : t.call? k = some c) : (t.setCall k c').awaited cluster id k' =
    if k' = k then c'.awaited cluster id k' else t.awaited cluster id k' := by
  rw [awaited, call?_setCall hc]
  split <;> rfl

/-- A call that goes through no cluster before or after the step owes nothing. -/
theorem awaited_of_quiet {relay : Relay} (hc : t.call? k = some c)
    (hbefore : ∀ cluster id, c.awaited cluster id k = [])
    (hafter : ∀ cluster id, c'.awaited cluster id k = []) (cluster : String) (id k' : Nat) :
    ({ t with relay }.setCall k c').awaited cluster id k' = t.awaited cluster id k' := by
  rw [awaited_setCall (by exact hc)]
  split
  · rename_i heq
    subst heq
    rw [hafter, awaited_of_call hc, hbefore]
  · rfl

theorem awaited_call (request : Request) : request.call.awaited cluster id k = [] := by
  cases request <;> rfl

theorem Effect.carries (he : Effect t a es u) : Carries t es u := by
  cases he with
  | @start k request hc =>
    have hquiet (cluster : String) (id k' : Nat) :
        (t.start k request.call).awaited cluster id k' = t.awaited cluster id k' := by
      rw [awaited, call?_start hc]
      split
      · rename_i heq
        subst heq
        rw [awaited, hc]
        exact awaited_call request
      · rfl
    rcases events_start t k request with hes | ⟨_, _, -, hes⟩ <;> rw [hes] <;>
      exact .other (by simp) (by simp) (by simp) hquiet
  | @move k c _ _ _ _ hc hm =>
    cases hm with
    | lock => exact .lock hc
    | enqueue hid => exact .enqueue hc hid
    | unlock => exact .unlock hc
    | refuse hr =>
      refine .other (by simp) (by simp) (by simp) (awaited_of_quiet hc (fun _ _ => ?_) fun _ _ => rfl)
      cases hr <;> rfl
    | _ =>
      exact .other (by simp) (by simp) (by simp)
        (awaited_of_quiet hc (fun _ _ => rfl) fun _ _ => rfl)
  | @collect k result hc =>
    refine .other (by simp) (by simp) (by simp) fun cluster id k' => ?_
    rw [awaited, call?_dropCall]
    split
    · rename_i heq
      subst heq
      rw [awaited_of_call hc]
      rfl
    · rfl
  | take => exact .other (by simp) (by simp) (by simp) fun _ _ _ => rfl
  | @finish id panicked =>
    rcases events_finish t id panicked with hes | ⟨_, -, -, hes⟩ <;> rw [hes] <;>
      exact .other (by simp) (by simp) (by simp) fun _ _ _ => rfl

end Traffic

/-! ## What is on its way -/

section
variable (hl : Ledger h t)
include hl

/-- A broadcast that begins has to hand its message to all members. -/
theorem Ledger.awaited_lock (cluster : String) (id k : Nat) (hc : t.call? k' = some (.lock other m)) :
    (t.setCall k' (.walk other m (t.relay.members other))).awaited cluster id k =
      t.awaited cluster id k ++
        if k' = k ∧ other = cluster ∧ id ∈ h.roster cluster then [(k', m)] else [] := by
  rw [Traffic.awaited_setCall hc, hl.members]
  by_cases hk : k' = k
  · subst hk
    rw [if_pos rfl, Traffic.awaited_of_call hc]
    by_cases hother : other = cluster
    · subst hother
      simp [Call.awaited]
    · simp [Call.awaited, hother]
  · simp [hk, Ne.symm hk]

theorem Ledger.awaited_enqueue {i : Nat} {left : List Nat} (k : Nat)
    (hhome : ∀ other, .inserted other id ∈ h → other = cluster)
    (hc : t.call? k' = some (.walk other m left)) (hi : i ∈ left) :
    t.awaited cluster id k = (if k' = k ∧ i = id then [(k', m)] else []) ++
      ({ t with relay := t.relay.enqueue m i }.setCall k' (.walk other m (left.erase i))).awaited
        cluster id k := by
  obtain ⟨hnodup, hmem⟩ := hl.walk hc
  rw [Traffic.awaited_setCall (by exact hc)]
  by_cases hk : k' = k
  · subst hk
    rw [if_pos rfl, Traffic.awaited_of_call hc]
    by_cases hid : i = id
    · subst hid
      have hother := hhome other (History.inserted_of_mem_roster (hmem i hi))
      simp [Call.awaited, hi, hother, hnodup.not_mem_erase]
    · simp [Call.awaited, hid, List.mem_erase_of_ne (Ne.symm hid)]
  · rw [if_neg (Ne.symm hk), if_neg (mt And.left hk)]
    rfl

omit hl in
theorem Traffic.awaited_unlock (cluster : String) (id k : Nat) (hc : t.call? k' = some (.walk other m [])) :
    (t.setCall k' (.over (.ok none))).awaited cluster id k = t.awaited cluster id k := by
  rw [awaited_setCall hc]
  split
  · rename_i hk
    subst hk
    rw [awaited_of_call hc]
    simp [Call.awaited]
  · rfl

end

/-! ## The messages of one caller -/

/-- Of the messages of the caller `k` all have arrived but the one that is on its way. -/
def InOrder (cluster : String) (id k : Nat) (h : History) (t : Traffic) : Prop :=
  (h.arrived id).filter (·.1 == k) ++ t.awaited cluster id k =
    (h.sent cluster id).filter (·.1 == k)

theorem filter_ite (p : Prop) [Decidable p] : (if p then [(k', m)] else []).filter (·.1 == k) =
    if k' = k ∧ p then [(k', m)] else [] := by
  by_cases hk : k' = k <;> by_cases hp : p <;> simp [hk, hp]

theorem InOrder.step (hl : Ledger h t) (hhome : ∀ other, .inserted other id ∈ h → other = cluster)
    (hs : t.Carries es u) (ho : InOrder cluster id k h t) : InOrder cluster id k (es ++ h) u := by
  rw [InOrder] at ho ⊢
  cases hs with
  | lock hc =>
    simp only [List.singleton_append, History.arrived, History.sent, List.filter_append, filter_ite]
    rw [hl.awaited_lock _ _ _ hc, ← List.append_assoc, ho]
  | enqueue hc hi =>
    simp only [List.singleton_append, History.arrived, History.sent, List.filter_append, filter_ite]
    rw [← ho, hl.awaited_enqueue k hhome hc hi, List.append_assoc]
  | unlock hc =>
    rw [Traffic.awaited_unlock _ _ _ hc]
    exact ho
  | other hbegan hqueued _ hawaited =>
    rw [History.sent_append_of_not_began hbegan,
      History.arrived_append_of_not_queued fun k m => hqueued k id m, hawaited]
    exact ho

/-- **Messages of one caller arrive once and in order.** -/
theorem Recorded.inOrder (hr : Recorded h t) (hin : .inserted cluster id ∈ h) (k : Nat) :
    InOrder cluster id k h t := by
  have hhome := (hr.ledger.inserted hin).2
  clear hin
  induction hr with
  | fresh => rfl
  | step hr hs ih =>
    have hhome := fun other hin => hhome other (List.mem_append_right _ hin)
    exact (ih hhome).step hr.ledger hhome (Traffic.effect_of_step hs).carries

/-! ## The messages of all callers -/

/-- One broadcast at most goes through the cluster, and all messages have arrived but the one that is
on its way. -/
structure OneByOne (cluster : String) (id : Nat) (h : History) (t : Traffic) : Prop where
  one : (h.walkers cluster).length ≤ 1
  quiet : ∀ k, k ∉ h.walkers cluster → t.awaited cluster id k = []
  order : h.arrived id ++ (h.walkers cluster).flatMap (t.awaited cluster id) = h.sent cluster id

section
variable (hl : Ledger h t) (ho : OneByOne cluster id h t)

include hl ho in
theorem OneByOne.lock (hc : t.call? k = some (.lock other m))
    (hsequential : History.Sequential cluster (.began k other m :: h)) :
    OneByOne cluster id (.began k other m :: h)
      (t.setCall k (.walk other m (t.relay.members other))) := by
  obtain ⟨hone, hquiet, horder⟩ := ho
  have hawaited (k') := hl.awaited_lock cluster id k' hc
  by_cases hother : other = cluster
  · -- broadcasts that do not overlap begin when no other is under way
    have hnobody : h.walkers cluster = [] := hsequential.1 hother
    rw [hnobody, List.flatMap_nil, List.append_nil] at horder
    rw [hnobody] at hquiet
    have hwalkers : History.walkers cluster (.began k other m :: h) = [k] := by
      simp [hother, hnobody]
    refine ⟨by rw [hwalkers]; exact Nat.le_refl 1, fun k' hk' => ?_, ?_⟩
    · rw [hwalkers, List.mem_singleton] at hk'
      rw [hawaited, hquiet k' List.not_mem_nil, if_neg fun hand => hk' hand.1.symm]
      rfl
    · rw [hwalkers, List.flatMap_singleton, hawaited, hquiet k List.not_mem_nil]
      simp [horder]
  · have hsame (k') := (hawaited k').trans
      (by rw [if_neg fun hand => hother hand.2.1, List.append_nil])
    have hwalkers : History.walkers cluster (.began k other m :: h) = h.walkers cluster := by
      simp [hother]
    refine ⟨hwalkers ▸ hone, fun k' hk' => ?_, ?_⟩
    · rw [hsame]
      exact hquiet k' (hwalkers ▸ hk')
    · rw [hwalkers, funext hsame]
      simpa [hother] using horder

include hl ho in
theorem OneByOne.enqueue {i : Nat} {left : List Nat}
    (hhome : ∀ other, .inserted other id ∈ h → other = cluster)
    (hc : t.call? k = some (.walk other m left)) (hi : i ∈ left) :
    OneByOne cluster id (.queued k i m :: h)
      ({ t with relay := t.relay.enqueue m i }.setCall k (.walk other m (left.erase i))) := by
  obtain ⟨hone, hquiet, horder⟩ := ho
  have hawaited (k') := hl.awaited_enqueue k' hhome hc hi
  refine ⟨hone, fun k' hk' => ?_, ?_⟩
  · exact (List.append_eq_nil_iff.1 ((hawaited k').symm.trans (hquiet k' hk'))).2
  · by_cases hid : i = id
    · -- only `k` goes through the cluster
      have hk : k ∈ h.walkers cluster := by
        by_contra hk
        have hnil := hquiet k hk
        rw [hawaited, if_pos ⟨rfl, hid⟩] at hnil
        cases hnil
      obtain ⟨w, hw⟩ := List.length_eq_one_iff.1 (Nat.le_antisymm hone (List.length_pos_of_mem hk))
      rw [hw, List.mem_singleton] at hk
      subst hk
      rw [hw, List.flatMap_singleton, hawaited, if_pos ⟨rfl, hid⟩, ← List.append_assoc] at horder
      simp only [History.arrived, History.sent, History.walkers, hw, if_pos hid,
        List.flatMap_singleton]
      exact horder
    · have hsame := funext fun k' => (hawaited k').trans
        (by rw [if_neg (mt And.right hid), List.nil_append])
      rw [hsame] at horder
      simpa [hid] using horder

include ho in
theorem OneByOne.unlock (hc : t.call? k = some (.walk other m [])) :
    OneByOne cluster id (.ended k other :: h) (t.setCall k (.over (.ok none))) := by
  obtain ⟨hone, hquiet, horder⟩ := ho
  have hsame (k') := Traffic.awaited_unlock cluster id k' hc
  have hnil : t.awaited cluster id k = [] := by simp [Traffic.awaited_of_call hc, Call.awaited]
  have hquiet' (k') (hk' : k' ∉ (h.walkers cluster).erase k) : t.awaited cluster id k' = [] := by
    by_cases hk : k' = k
    · rw [hk, hnil]
    · exact hquiet k' (mt (List.mem_erase_of_ne hk).2 hk')
  have herase : ((h.walkers cluster).erase k).flatMap (t.awaited cluster id) =
      (h.walkers cluster).flatMap (t.awaited cluster id) := by
    match h.walkers cluster, hone with
    | [], _ => rfl
    | [w], _ =>
      by_cases hw : w = k
      · subst hw
        simp [hnil]
      · simp [hw]
  by_cases hother : other = cluster
  · refine ⟨?_, fun k' hk' => ?_, ?_⟩
    · simp only [History.walkers, if_pos hother]
      exact Nat.le_trans (List.length_erase_le) hone
    · simp only [History.walkers, if_pos hother] at hk'
      rw [hsame, hquiet' k' hk']
    · simp only [History.walkers, if_pos hother]
      rw [funext hsame, herase]
      exact horder
  · refine ⟨?_, fun k' hk' => ?_, ?_⟩
    · simpa [hother] using hone
    · rw [hsame]
      exact hquiet k' (by simpa [hother] using hk')
    · rw [funext hsame]
      simpa [hother] using horder

include hl ho in
theorem OneByOne.step (hhome : ∀ other, .inserted other id ∈ h → other = cluster)
    (hs : t.Carries es u) (hsequential : History.Sequential cluster (es ++ h)) :
    OneByOne cluster id (es ++ h) u := by
  cases hs with
  | lock hc => exact ho.lock hl hc hsequential
  | enqueue hc hi => exact ho.enqueue hl hhome hc hi
  | unlock hc => exact ho.unlock hc
  | other hbegan hqueued hended hawaited =>
    have hwalkers := History.walkers_append_of_not cluster h hbegan hended
    refine ⟨hwalkers ▸ ho.one, fun k hk => ?_, ?_⟩
    · rw [hawaited]
      exact ho.quiet k (hwalkers ▸ hk)
    · rw [hwalkers, History.sent_append_of_not_began hbegan,
        History.arrived_append_of_not_queued fun k m => hqueued k id m,
        funext (hawaited cluster id)]
      exact ho.order

end

/-- **Messages of broadcasts that do not overlap arrive in the order of the broadcasts.** -/
theorem Recorded.arrived_prefix (hr : Recorded h t) (hin : .inserted cluster id ∈ h)
    (hsequential : h.Sequential cluster) : h.arrived id <+: h.sent cluster id := by
  have hhome := (hr.ledger.inserted hin).2
  clear hin
  have hone : OneByOne cluster id h t := by
    induction hr with
    | fresh => exact ⟨Nat.zero_le 1, fun _ _ => rfl, rfl⟩
    | step hr hs ih =>
      have hhome := fun other hin => hhome other (List.mem_append_right _ hin)
      exact (ih (History.sequential_of_append hsequential) hhome).step hr.ledger hhome
        (Traffic.effect_of_step hs).carries hsequential
  exact ⟨_, hone.order⟩

end Lockstep.Relay
