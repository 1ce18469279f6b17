import Lockstep.Proofs.Relay.Sessions

/-!
# What operations add up to

Three things are told by the operations so far alone (`Accounts`): which numbers have been handed out,
which connections are closed, and whether the relay is. So they are known in the end, and wherever an
operation begins (`accounts`).
-/

set_option autoImplicit false

namespace Lockstep.Relay

variable {r r' : Relay} {id k : Nat} {cluster : String} {m : Payload}

/-! ## Closed connections -/

theorem isClosed_foldl_enqueue (ids : List Nat) (m : Payload) (r : Relay) :
    (ids.foldl (·.enqueue m) r).isClosed id = r.isClosed id := by
  induction ids generalizing r with
  | nil => rfl
  | cons k ids ih => exact (ih _).trans isClosed_enqueue

theorem isClosed_close : (r.close k).isClosed id = (k == id || r.isClosed id) := by
  by_cases hk : k = id
  · subst hk
    rw [beq_self_eq_true, Bool.true_or, isClosed, close, endpoint_modifyEndpoint, if_pos rfl]
    cases r.endpoints[k]? <;> rfl
  · rw [isClosed_close_of_ne hk, beq_false_of_ne hk, Bool.false_or]

theorem isClosed_leave : (r.leave cluster k).isClosed id = (k == id || r.isClosed id) :=
  isClosed_close

theorem isClosed_take (ht : r.take k = some (m, r')) : r'.isClosed id = r.isClosed id := by
  obtain ⟨e, queue, he, -, -, -, rfl⟩ := take_eq_some_iff.1 ht
  exact isClosed_set he rfl

theorem isClosed_finish {panicked : Bool} (hf : r.finish k panicked = some r') :
    r'.isClosed id = r.isClosed id := by
  obtain ⟨e, he, -, rfl⟩ := finish_eq_some_iff.1 hf
  exact isClosed_set he rfl

theorem isClosed_insertMember : (r.insertMember cluster k).isClosed id = r.isClosed id := by
  rw [isClosed, isClosed, endpoints_insertMember]

/-- The connection has been made, and closed. -/
def hasClosed (r : Relay) (id : Nat) : Bool := decide (id < r.nextId) && r.isClosed id

theorem hasClosed_congr (hnext : r'.nextId = r.nextId) (hclosed : r'.isClosed id = r.isClosed id) :
    r'.hasClosed id = r.hasClosed id := by
  rw [hasClosed, hasClosed, hnext, hclosed]

theorem hasClosed_newEndpoint : r.newEndpoint.hasClosed id = r.hasClosed id := by
  rw [hasClosed, hasClosed, nextId_newEndpoint, isClosed_newEndpoint]
  by_cases hid : id = r.nextId
  · simp [hid]
  · have hlt : decide (id < r.nextId + 1) = decide (id < r.nextId) := by
      rw [decide_eq_decide]
      omega
    rw [if_neg hid, hlt]

theorem hasClosed_of_isClosed (hk : k < r.nextId) (hnext : r'.nextId = r.nextId)
    (hclosed : r'.isClosed id = (k == id || r.isClosed id)) :
    r'.hasClosed id = (r.hasClosed id || k == id) := by
  rw [hasClosed, hasClosed, hnext, hclosed]
  by_cases hid : k = id
  · simp [← hid, hk]
  · rw [beq_false_of_ne hid, Bool.false_or, Bool.or_false]

namespace Session

variable {s t u : Session} {o : Operation} {es es' : Trace}

/-- The number that the operation hands out. -/
def number? : Session × Operation → Option Nat
  | (s, o) => if o.asks then s.relay.connect.toOption.map (·.1) else none

theorem number?_of_open (ho : o.asks = true) (hopen : s.relay.closed = false) :
    number? (s, o) = some s.relay.nextId := by
  rw [number?, if_pos ho, connect_eq_ok_iff.2 ⟨hopen, rfl, rfl⟩]
  rfl

theorem number?_of_closed (hclosed : s.relay.closed = true) : number? (s, o) = none := by
  rw [number?, connect_of_closed hclosed]
  exact ite_self none

/-- The operations that have led to the session account for its numbers and closings. -/
structure Accounts (es : Trace) (s : Session) : Prop where
  /-- The numbers handed out are 0, 1, 2 and so on, in the order of the operations. -/
  numbers : es.filterMap number? = List.range s.relay.nextId
  closings : ∀ id, es.any (·.2.closes id) = s.relay.hasClosed id
  shutdown : es.any (·.2.isShutdown) = s.relay.closed

/-- An operation that asks neither closes nor shuts down. -/
theorem closes_of_asks (ho : o.asks = true) : (∀ id, o.closes id = false) ∧ o.isShutdown = false := by
  cases o with
  | connect | register => exact ⟨fun _ => rfl, rfl⟩
  | _ => cases ho

/-- What an operation hands out, closes and shuts down. -/
structure Amounts (s : Session) (o : Operation) (t : Session) : Prop where
  numbers : List.range t.relay.nextId = List.range s.relay.nextId ++ (number? (s, o)).toList
  closings : ∀ id, t.relay.hasClosed id = (s.relay.hasClosed id || o.closes id)
  shutdown : t.relay.closed = (s.relay.closed || o.isShutdown)

theorem amounts_of_same (hnumber : number? (s, o) = none) (hcloses : ∀ id, o.closes id = false)
    (hshutdown : o.isShutdown = false) (hnext : t.relay.nextId = s.relay.nextId)
    (hclosed : ∀ id, t.relay.isClosed id = s.relay.isClosed id)
    (hrelay : t.relay.closed = s.relay.closed) : Amounts s o t where
  numbers := by rw [hnumber, hnext, Option.toList_none, List.append_nil]
  closings id := by rw [hcloses, Bool.or_false, hasClosed_congr hnext (hclosed id)]
  shutdown := by rw [hshutdown, Bool.or_false, hrelay]

theorem amounts_of_does (hs : s.Sound) (h : Does s o t) (hv : o.Valid s) : Amounts s o t := by
  cases h with
  | ask ho hopen =>
    obtain ⟨hcloses, hshutdown⟩ := closes_of_asks ho
    refine ⟨?_, fun id => ?_, ?_⟩
    · rw [number?_of_open ho hopen]
      exact (congrArg List.range nextId_newEndpoint).trans List.range_succ
    · rw [hcloses, Bool.or_false]
      exact hasClosed_newEndpoint
    · rw [hshutdown, Bool.or_false]
      rfl
  | refuse ho hclosed =>
    obtain ⟨hcloses, hshutdown⟩ := closes_of_asks ho
    exact amounts_of_same (number?_of_closed hclosed) hcloses hshutdown rfl (fun _ => rfl) rfl
  | broadcast hb =>
    obtain ⟨-, -, rfl⟩ := broadcast_eq_ok_iff.1 hb
    exact amounts_of_same rfl (fun _ => rfl) rfl (nextId_foldl_enqueue _ _ _)
      (fun _ => isClosed_foldl_enqueue _ _ _) (alike_foldl_enqueue _ _ _).2
  | fail => exact amounts_of_same rfl (fun _ => rfl) rfl rfl (fun _ => rfl) rfl
  | close =>
    refine ⟨?_, fun id => hasClosed_of_isClosed hv nextId_modifyEndpoint isClosed_close, ?_⟩
    · exact (congrArg List.range nextId_modifyEndpoint).trans (List.append_nil _).symm
    · exact (Bool.or_false _).symm
  | stop =>
    refine ⟨?_, fun id => hasClosed_of_isClosed (hs.services _ hv) (nextId_leave _ _ _)
      isClosed_leave, ?_⟩
    · exact (congrArg List.range (nextId_leave _ _ _)).trans (List.append_nil _).symm
    · exact (Bool.or_false _).symm
  | shutdown =>
    refine ⟨(List.append_nil _).symm, fun id => (Bool.or_false _).symm, ?_⟩
    exact (Bool.or_true _).symm

theorem Accounts.congr (h : Accounts es s) (hnext : t.relay.nextId = s.relay.nextId)
    (hisClosed : ∀ id, t.relay.isClosed id = s.relay.isClosed id)
    (hclosed : t.relay.closed = s.relay.closed) : Accounts es t where
  numbers := h.numbers.trans (congrArg List.range hnext.symm)
  closings id := (h.closings id).trans (hasClosed_congr hnext (hisClosed id)).symm
  shutdown := h.shutdown.trans hclosed.symm

theorem Accounts.passes (h : Accounts es s) (hp : Passes s t) : Accounts es t := by
  have hnext := hp.nextId_eq
  cases hp with
  | take ht => exact h.congr hnext (fun _ => isClosed_take ht) (alike_of_take ht).2
  | finish hf => exact h.congr hnext (fun _ => isClosed_finish hf) (alike_of_finish hf).2
  | rest hrelay => exact h.congr hnext (fun _ => by rw [hrelay]) (by rw [hrelay])

theorem Accounts.does (h : Accounts es s) (hd : Amounts s o t) : Accounts (es ++ [(s, o)]) t where
  numbers := by
    rw [List.filterMap_append, h.numbers, hd.numbers, List.filterMap_cons]
    cases number? (s, o) <;> rfl
  closings id := by
    rw [List.any_append, h.closings, hd.closings, List.any_cons, List.any_nil, Bool.or_false]
  shutdown := by
    rw [List.any_append, h.shutdown, hd.shutdown, List.any_cons, List.any_nil, Bool.or_false]

theorem keeps_accounts : Keeps Accounts where
  passes _ h hp := h.passes hp
  does hs h hv hd := h.does (amounts_of_does hs hd hv)
  join _ h _ _ _ := h.congr (nextId_insertMember _ _ _) (fun _ => isClosed_insertMember)
    closed_insertMember

theorem Accounts.isClosed_eq (h : Accounts es s) (hid : id < s.relay.nextId) :
    s.relay.isClosed id = es.any (·.2.closes id) := by
  rw [h.closings, hasClosed, decide_eq_true hid, Bool.true_and]

/-- The operations from the fresh session on account for it, and the earlier ones for each session on
the way. -/
theorem Leads.accounts (h : Leads {} es t) : Holds Accounts [] es t :=
  h.holds keeps_accounts sound_fresh ⟨rfl, fun _ => rfl, rfl⟩

end Session

end Lockstep.Relay
