import Mathlib.Data.Option.Basic
import Lockstep.Relay.Basic

/-!
# The endpoints of a relay

What the operations on a connection, on the queue of a service and on its handler do to each
endpoint.
-/

set_option autoImplicit false

namespace Lockstep.Relay

variable {r s : Relay} {id other : Nat} {m : Payload} {panicked : Bool} {f : Endpoint → Endpoint}

@[simp] theorem nextId_modifyEndpoint : (r.modifyEndpoint id f).nextId = r.nextId := by
  simp [nextId, modifyEndpoint]

@[simp] theorem nextId_newEndpoint : r.newEndpoint.nextId = r.nextId + 1 := by
  simp [nextId, newEndpoint]

theorem endpoint_modifyEndpoint : (r.modifyEndpoint id f).endpoints[other]? =
    if id = other then r.endpoints[other]?.map f else r.endpoints[other]? := by
  rw [modifyEndpoint, List.getElem?_modify]
  split <;> cases r.endpoints[other]? <;> rfl

theorem endpoint_newEndpoint : r.newEndpoint.endpoints[other]? =
    if other = r.nextId then some {} else r.endpoints[other]? := by
  rw [newEndpoint, List.getElem?_append, nextId]
  split
  · rename_i hlt
    rw [if_neg (Nat.ne_of_lt hlt)]
  · rename_i hnot
    split
    · rename_i heq
      simp [heq]
    · rename_i hne
      have hle : r.endpoints.length ≤ other := Nat.le_of_not_lt hnot
      rw [List.getElem?_eq_none (by simp only [List.length_singleton]; omega),
        List.getElem?_eq_none hle]

/-! ## Which connections are open -/

theorem isClosed_modifyEndpoint (hf : ∀ e, (f e).closed = e.closed) :
    (r.modifyEndpoint id f).isClosed other = r.isClosed other := by
  rw [isClosed, isClosed, endpoint_modifyEndpoint]
  by_cases hid : id = other
  · rw [if_pos hid]
    cases r.endpoints[other]? with
    | none => rfl
    | some e => exact hf e
  · rw [if_neg hid]

theorem isClosed_enqueue : (r.enqueue m id).isClosed other = r.isClosed other := by
  refine isClosed_modifyEndpoint fun e => ?_
  split <;> rfl

theorem isClosed_close_of_ne (hne : id ≠ other) :
    (r.close id).isClosed other = r.isClosed other := by
  rw [isClosed, isClosed, close, endpoint_modifyEndpoint, if_neg hne]

theorem isClosed_newEndpoint :
    r.newEndpoint.isClosed other = if other = r.nextId then false else r.isClosed other := by
  rw [isClosed, isClosed, endpoint_newEndpoint]
  by_cases hid : other = r.nextId
  · rw [if_pos hid, if_pos hid]
  · rw [if_neg hid, if_neg hid]

theorem isClosed_set {e e' : Endpoint} (he : r.endpoints[id]? = some e)
    (hclosed : e'.closed = e.closed) :
    Relay.isClosed { r with endpoints := r.endpoints.set id e' } other = r.isClosed other := by
  obtain ⟨hlt, rfl⟩ := List.getElem?_eq_some_iff.1 he
  by_cases hid : id = other
  · subst hid
    simp [isClosed, hlt, hclosed]
  · simp [isClosed, hid]

/-! ## Deliveries -/

theorem take_eq_some_iff : r.take id = some (m, s) ↔
    ∃ e queue, r.endpoints[id]? = some e ∧ e.busy = false ∧ e.dead = false ∧
      e.queue.pop? = some (m, queue) ∧ s = { r with
        endpoints := r.endpoints.set id { e with queue, handled := e.handled.push m, busy := true } } := by
  simp only [take, Option.bind_eq_bind, Option.bind_eq_some_iff, Option.guard_eq_some',
    Bool.and_eq_true, Bool.not_eq_true', exists_const, Prod.exists]
  constructor
  · rintro ⟨e, he, ⟨hbusy, hdead⟩, m', queue, hpop, h⟩
    cases h
    exact ⟨e, queue, he, hbusy, hdead, hpop, rfl⟩
  · rintro ⟨e, queue, he, hbusy, hdead, hpop, rfl⟩
    exact ⟨e, he, ⟨hbusy, hdead⟩, m, queue, hpop, rfl⟩

theorem finish_eq_some_iff : r.finish id panicked = some s ↔
    ∃ e, r.endpoints[id]? = some e ∧ e.busy = true ∧ s = { r with
      endpoints := r.endpoints.set id { e with
        queue := if panicked then {} else e.queue, busy := false, dead := panicked } } := by
  simp only [finish, Option.bind_eq_bind, Option.bind_eq_some_iff, Option.guard_eq_some',
    exists_const]
  constructor
  · rintro ⟨e, he, hbusy, h⟩
    cases h
    exact ⟨e, he, hbusy, rfl⟩
  · rintro ⟨e, he, hbusy, rfl⟩
    exact ⟨e, he, hbusy, rfl⟩

theorem isDrained_iff {e : Endpoint} (he : r.endpoints[id]? = some e) :
    r.isDrained id = true ↔ e.dead = true ∨ (e.queue.toList = [] ∧ e.busy = false) := by
  simp [isDrained, he, Queue.isEmpty_iff]

/-! ## What leaves the clusters alone -/

/-- The relays have the same clusters, and are both open or both closed. -/
def Alike (r s : Relay) : Prop := s.clusters = r.clusters ∧ s.closed = r.closed

theorem alike_close (r : Relay) (id : Nat) : r.Alike (r.close id) := ⟨rfl, rfl⟩

theorem alike_newEndpoint (r : Relay) : r.Alike r.newEndpoint := ⟨rfl, rfl⟩

theorem alike_of_take (h : r.take id = some (m, s)) : r.Alike s := by
  obtain ⟨_, _, -, -, -, -, rfl⟩ := take_eq_some_iff.1 h
  exact ⟨rfl, rfl⟩

theorem alike_of_finish (h : r.finish id panicked = some s) : r.Alike s := by
  obtain ⟨_, -, -, rfl⟩ := finish_eq_some_iff.1 h
  exact ⟨rfl, rfl⟩

theorem alike_foldl_enqueue (ids : List Nat) (m : Payload) (r : Relay) :
    r.Alike (ids.foldl (·.enqueue m) r) := by
  induction ids generalizing r with
  | nil => exact ⟨rfl, rfl⟩
  | cons id ids ih => exact ih (r.enqueue m id)

theorem Alike.members (h : r.Alike s) (cluster : String) : s.members cluster = r.members cluster := by
  unfold Relay.members
  rw [h.1]

theorem Alike.isVacant (h : r.Alike s) (cluster : String) :
    s.isVacant cluster = r.isVacant cluster := by
  unfold Relay.isVacant
  rw [h.1]

end Lockstep.Relay
