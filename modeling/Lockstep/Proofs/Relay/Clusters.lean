import Mathlib.Data.List.Nodup
import Lockstep.Relay.Basic

/-!
# The members of a cluster

What each operation on the clusters of a relay does to the members of any cluster. The entry of a
vacant cluster can be dropped without a change to what is found under any name, if no two clusters
have the same name (`members_sweep`). No operation but the removal of its last member leaves an entry
vacant.
-/

set_option autoImplicit false

namespace Lockstep.Relay

/-- No two clusters have the same name. -/
def Distinct (r : Relay) : Prop := (r.clusters.map (·.name)).Nodup

variable {r : Relay} {cluster other : String} {id : Nat}

/-- The members under a name, in any list of clusters. -/
theorem members_eq (r : Relay) (cluster : String) : r.members cluster =
    ((r.clusters.find? (·.name == cluster)).map (·.members)).getD [] := by
  rw [members]
  cases r.clusters.find? (·.name == cluster) <;> rfl

theorem find?_of_not_hasEntry (hno : r.hasEntry cluster = false) :
    r.clusters.find? (·.name == cluster) = none := by
  rw [hasEntry, List.any_eq_false] at hno
  exact List.find?_eq_none.2 hno

theorem members_modifyMembers {f : List Nat → List Nat}
    (hf : r.hasEntry cluster = true ∨ f [] = []) :
    (r.modifyMembers cluster f).members other =
      if other = cluster then f (r.members other) else r.members other := by
  have hname : (fun c : Cluster => c.name == other) ∘ (fun c : Cluster =>
      if c.name == cluster then { c with members := f c.members } else c) =
      fun c => c.name == other := by
    funext c
    simp only [Function.comp_apply]
    split <;> rfl
  rw [members_eq, members_eq, modifyMembers, List.find?_map, hname]
  cases hfind : r.clusters.find? (·.name == other) with
  | none =>
    split
    · rename_i heq
      subst heq
      rcases hf with hentry | hf
      · rw [hasEntry, List.any_eq_true] at hentry
        obtain ⟨c, hc, heq⟩ := hentry
        exact absurd heq (List.find?_eq_none.1 hfind c hc)
      · exact hf.symm
    · rfl
  | some c =>
    have hc : c.name = other := by simpa using List.find?_some hfind
    subst hc
    simp only [Option.map_some, Option.getD_some, beq_iff_eq]
    split <;> rfl

theorem members_removeMember : (r.removeMember cluster id).members other =
    if other = cluster then (r.members other).erase id else r.members other :=
  members_modifyMembers (.inr rfl)

theorem members_insertMember : (r.insertMember cluster id).members other =
    if other = cluster then
      if id ∈ r.members other then r.members other else r.members other ++ [id]
    else r.members other := by
  rw [insertMember]
  split
  · rename_i hentry
    exact members_modifyMembers (.inl hentry)
  · rename_i hentry
    have hnone := find?_of_not_hasEntry (Bool.eq_false_iff.2 hentry)
    rw [members_eq, List.find?_append]
    split
    · rename_i heq
      subst heq
      simp [members_eq, hnone]
    · rename_i hne
      rw [members_eq]
      simp [Ne.symm hne]

theorem members_sweep (hd : r.Distinct) : (r.sweep cluster).members other = r.members other := by
  rw [members_eq, members_eq, sweep]
  rw [Distinct] at hd
  generalize r.clusters = clusters at hd
  induction clusters with
  | nil => rfl
  | cons c clusters ih =>
    rw [List.map_cons, List.nodup_cons] at hd
    simp only [List.filter_cons]
    split
    · simp only [List.find?_cons]
      split
      · rfl
      · exact ih hd.2
    · rename_i hvacant
      rw [ih hd.2, List.find?_cons]
      split
      · -- the entry that is dropped has no members, and no other has its name
        rename_i hname
        have hc : c.name = other := by simpa using hname
        have hnone : clusters.find? (·.name == other) = none := by
          rw [List.find?_eq_none]
          intro c' hc' heq
          exact hd.1 (List.mem_map.2 ⟨c', hc', by simpa [hc] using heq⟩)
        have hnil : c.members = [] := by simp_all
        simp [hnone, hnil]
      · rfl

/-! ## Vacant entries -/

theorem isVacant_iff : r.isVacant cluster = true ↔
    ∃ e ∈ r.clusters, e.name = cluster ∧ e.members = [] := by
  simp [isVacant]

/-- A change that empties no entry of the other cluster leaves none of it vacant that was not. -/
theorem isVacant_modifyMembers {f : List Nat → List Nat}
    (hf : other = cluster → ∀ ids, f ids = [] → ids = [])
    (hv : (r.modifyMembers cluster f).isVacant other = true) : r.isVacant other = true := by
  obtain ⟨e, he, hname, hnil⟩ := isVacant_iff.1 hv
  obtain ⟨e, he', rfl⟩ := List.mem_map.1 he
  refine isVacant_iff.2 ⟨e, he', ?_⟩
  split at hname <;> rename_i hcluster
  · rw [if_pos hcluster] at hnil
    have hother : other = cluster := hname.symm.trans (by simpa using hcluster)
    exact ⟨hname, hf hother e.members hnil⟩
  · rw [if_neg hcluster] at hnil
    exact ⟨hname, hnil⟩

theorem isVacant_insertMember (hv : (r.insertMember cluster id).isVacant other = true) :
    r.isVacant other = true := by
  rw [insertMember] at hv
  split at hv
  · refine isVacant_modifyMembers (fun _ ids hnil => ?_) hv
    split at hnil
    · exact hnil
    · simp at hnil
  · obtain ⟨e, he, hname, hnil⟩ := isVacant_iff.1 hv
    rcases List.mem_append.1 he with he | he
    · exact isVacant_iff.2 ⟨e, he, hname, hnil⟩
    · rw [List.mem_singleton.1 he] at hnil
      cases hnil

theorem isVacant_sweep (hv : (r.sweep cluster).isVacant other = true) :
    other ≠ cluster ∧ r.isVacant other = true := by
  obtain ⟨e, he, hname, hnil⟩ := isVacant_iff.1 hv
  obtain ⟨he, hstays⟩ := List.mem_filter.1 he
  refine ⟨?_, isVacant_iff.2 ⟨e, he, hname, hnil⟩⟩
  rintro rfl
  simp [hname, hnil] at hstays

/-! ## Distinct names -/

theorem Distinct.modifyMembers (hd : r.Distinct) (f : List Nat → List Nat) :
    (r.modifyMembers cluster f).Distinct := by
  have hname : (Cluster.name ∘ fun c : Cluster =>
      if c.name == cluster then { c with members := f c.members } else c) = Cluster.name := by
    funext c
    simp only [Function.comp_apply]
    split <;> rfl
  rw [Distinct, Relay.modifyMembers, List.map_map, hname]
  exact hd

theorem Distinct.insertMember (hd : r.Distinct) : (r.insertMember cluster id).Distinct := by
  rw [Relay.insertMember]
  split
  · exact hd.modifyMembers _
  · rename_i hentry
    rw [Distinct, List.map_append, List.nodup_append]
    refine ⟨hd, List.nodup_singleton _, ?_⟩
    rintro name hname _ hm rfl
    obtain ⟨c, hc, rfl⟩ := List.mem_map.1 hname
    obtain rfl := List.mem_singleton.1 hm
    exact hentry (List.any_eq_true.2 ⟨c, hc, beq_self_eq_true _⟩)

theorem Distinct.sweep (hd : r.Distinct) : (r.sweep cluster).Distinct :=
  hd.sublist (List.filter_sublist.map _)

/-! ## Endpoints stay -/

@[simp] theorem endpoints_insertMember : (r.insertMember cluster id).endpoints = r.endpoints := by
  rw [insertMember]
  split <;> rfl

@[simp] theorem endpoints_removeMember : (r.removeMember cluster id).endpoints = r.endpoints := rfl

@[simp] theorem endpoints_sweep : (r.sweep cluster).endpoints = r.endpoints := rfl

end Lockstep.Relay
