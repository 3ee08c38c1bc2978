import Discordium.Net.Interest.Scan

/-!
# Net — Interest — Closure

When the closure of a prediction group succeeds.  The limits are checked while the worklist grows,
so that a failing check has to be turned into a fact about what can be reached: nothing is noted
that cannot be, no entity is noted twice, and every edge of what was visited has been counted once.

**The closure succeeds exactly on small permitted groups** (`required_iff`).
-/

namespace Net.Interest
open Lib Relation
open Std (ExtTreeMap ExtTreeSet)

namespace Graph

/-- The entity can be reached from the roots along declared dependencies. -/
def Reaches (graph : Graph) (roots : ExtTreeSet EntityId) (id : EntityId) : Prop :=
  ∃ root, root ∈ roots ∧ ReflTransGen graph.Depends root id

/-- The number of dependencies that an entity declares. -/
def edgesFrom (graph : Graph) (id : EntityId) : ℕ :=
  graph.entities[id]?.elim 0 (·.dependencies.size)

/-- The entity may be predicted, and so may what it declares. -/
structure Predictable (graph : Graph) (connection : ℕ) (view : ConnectionView)
    (policy : DisclosurePolicy) (id : EntityId) : Prop where
  allowed : ∃ entity representation, graph.entities[id]? = some entity ∧
    permitted connection view entity policy = some representation ∧
      representation.predictionAllowed = true
  edges : ∀ target, graph.Depends id target → policy.permitsDependency connection id target = true

/-- The entities that can be reached are all permitted, and not too many. -/
structure Closable (graph : Graph) (connection : ℕ) (view : ConnectionView)
    (roots : ExtTreeSet EntityId) (policy : DisclosurePolicy)
    (members : Finset EntityId) : Prop where
  reaches : ∀ id, id ∈ members ↔ graph.Reaches roots id
  predictable : ∀ id ∈ members, graph.Predictable connection view policy id
  entities : members.card ≤ graph.limits.maxRequired
  edges : ∑ id ∈ members, graph.edgesFrom id ≤ graph.limits.maxDependencyEdges

end Graph

namespace Closing
variable {graph : Graph} {connection : ℕ} {view : ConnectionView} {roots : ExtTreeSet EntityId}
  {policy : DisclosurePolicy} {closing closing' : Closing} {limits : Limits}

def visitedIds (closing : Closing) : Finset EntityId := closing.visited.keys.toFinset

/-- What was visited and what is pending. -/
def noted (closing : Closing) : Finset EntityId :=
  closing.visitedIds ∪ closing.pending.toList.toFinset

variable {id target : EntityId} {targets : List EntityId} {members : Finset EntityId}

theorem mem_visitedIds : id ∈ closing.visitedIds ↔ id ∈ closing.visited := by
  rw [visitedIds, List.mem_toFinset, ExtTreeMap.mem_keys]

theorem mem_noted : id ∈ closing.noted ↔ id ∈ closing.visited ∨ id ∈ closing.pending := by
  rw [noted, Finset.mem_union, mem_visitedIds, List.mem_toFinset, ExtTreeSet.mem_toList]

theorem card_visitedIds (closing : Closing) : closing.visitedIds.card = closing.visited.size := by
  rw [visitedIds, List.toFinset_card_of_nodup (nodup_keys _), ExtTreeMap.length_keys]

theorem card_noted (h : ∀ id ∈ closing.pending, id ∉ closing.visited) :
    closing.noted.card = closing.visited.size + closing.pending.size := by
  rw [noted, Finset.card_union_of_disjoint, card_visitedIds,
    List.toFinset_card_of_nodup (nodup_set_toList _), ExtTreeSet.length_toList]
  refine Finset.disjoint_left.mpr fun id hvisited hpending => ?_
  rw [List.mem_toFinset, ExtTreeSet.mem_toList] at hpending
  exact h id hpending (mem_visitedIds.mp hvisited)

/-! ### What a closure has checked -/

/-- Every visited entity passed its checks, and its edges were counted. -/
structure Counted (graph : Graph) (connection : ℕ) (view : ConnectionView)
    (policy : DisclosurePolicy) (closing : Closing) : Prop where
  predictable : ∀ id ∈ closing.visited, graph.Predictable connection view policy id
  edges : closing.edges = ∑ id ∈ closing.visitedIds, graph.edgesFrom id
  edges_le : closing.edges ≤ graph.limits.maxDependencyEdges

theorem follow_counts (h : closing.follow limits connection policy id target = .ok closing') :
    policy.permitsDependency connection id target = true ∧ closing'.edges = closing.edges + 1 ∧
      closing'.edges ≤ limits.maxDependencyEdges := by
  obtain ⟨_, hedges, h⟩ := bind_eq_ok.mp h
  obtain ⟨_, hpermitted, h⟩ := bind_eq_ok.mp h
  rw [require_eq_ok] at hedges hpermitted
  split at h
  · cases h
    exact ⟨hpermitted, rfl, hedges⟩
  · obtain ⟨_, -, rfl⟩ := map_eq_ok.mp h
    exact ⟨hpermitted, rfl, hedges⟩

theorem follow_loop_counts
    (h : loop (follow limits connection policy id) closing targets = .ok closing')
    (hedges : closing.edges ≤ limits.maxDependencyEdges) :
    (∀ target ∈ targets, policy.permitsDependency connection id target = true) ∧
      closing'.edges = closing.edges + targets.length ∧
        closing'.edges ≤ limits.maxDependencyEdges := by
  induction targets generalizing closing with
  | nil =>
    cases h
    exact ⟨by simp, rfl, hedges⟩
  | cons target targets ih =>
    obtain ⟨next, hnext, hrest⟩ := bind_eq_ok.mp h
    obtain ⟨hpermitted, hcount, hle⟩ := follow_counts hnext
    obtain ⟨hall, hcounts, hle⟩ := ih hrest hle
    refine ⟨List.forall_mem_cons.mpr ⟨hpermitted, hall⟩, ?_, hle⟩
    rw [hcounts, hcount, List.length_cons]
    omega

theorem Counted.visit (h : Counted graph connection view policy closing)
    (hfresh : id ∉ closing.visited) (hvisit : closing.visit graph connection view policy id =
      .ok closing') :
    Counted graph connection view policy closing' := by
  obtain ⟨entity, hentity, hvisit⟩ := bind_eq_ok.mp hvisit
  obtain ⟨representation, hpermitted, hvisit⟩ := bind_eq_ok.mp hvisit
  obtain ⟨_, hallowed, hvisit⟩ := bind_eq_ok.mp hvisit
  rw [obtainOr_eq_ok] at hentity hpermitted
  rw [require_eq_ok] at hallowed
  obtain ⟨htargets, hedges, hle⟩ := follow_loop_counts hvisit h.edges_le
  have hvisited :
      closing'.visited = closing.visited.insert id (entry entity representation .required) :=
    (follow_loop hvisit).visited
  have hids : closing'.visitedIds = insert id closing.visitedIds := by
    ext other
    rw [Finset.mem_insert, mem_visitedIds, mem_visitedIds, hvisited, ExtTreeMap.mem_insert,
      Std.compare_eq_iff_eq, eq_comm]
  refine ⟨fun other hother => ?_, ?_, hle⟩
  · rw [hvisited, ExtTreeMap.mem_insert, Std.compare_eq_iff_eq] at hother
    rcases hother with rfl | hother
    · refine ⟨⟨entity, representation, hentity, hpermitted, hallowed⟩, fun target htarget => ?_⟩
      exact htargets target (ExtTreeSet.mem_toList.mpr ((Graph.has_iff hentity _).mp htarget))
    · exact h.predictable other hother
  · rw [hids, Finset.sum_insert (by rwa [mem_visitedIds]), hedges, Graph.edgesFrom, hentity,
      Option.elim_some, ExtTreeSet.length_toList, ← h.edges, Nat.add_comm]

theorem Counted.rounds {n : ℕ} (h : Counted graph connection view policy closing)
    (hsound : Sound graph connection view policy roots closing)
    (hrounds : rounds graph connection view policy n closing = .ok closing') :
    Counted graph connection view policy closing' := by
  induction n generalizing closing with
  | zero =>
    cases hrounds
    exact h
  | succ n ih =>
    rw [Closing.rounds] at hrounds
    split at hrounds
    · cases hrounds
      exact h
    · rename_i id hhead
      obtain ⟨next, hvisit, hrest⟩ := bind_eq_ok.mp hrounds
      have hid : id ∈ closing.pending := ExtTreeSet.mem_toList.mp (List.mem_of_head? hhead)
      exact ih (h.visit (hsound.disjoint id hid) hvisit) (hsound.visit hid hvisit).1 hrest

/-! ### Why a closure does not fail -/

theorem follow_succeeds (hedges : closing.edges < limits.maxDependencyEdges)
    (hpermitted : policy.permitsDependency connection id target = true)
    (hdisjoint : ∀ id ∈ closing.pending, id ∉ closing.visited) (hnoted : closing.noted ⊆ members)
    (htarget : target ∈ members) (hmembers : members.card ≤ limits.maxRequired) :
    ∃ closing', closing.follow limits connection policy id target = .ok closing' := by
  unfold follow
  rw [require_of hedges, require_of hpermitted]
  simp only [Except.bind]
  split_ifs with hknown
  · exact ⟨_, rfl⟩
  · rw [Bool.or_eq_true,
      not_or, ← ExtTreeMap.mem_iff_contains, ← ExtTreeSet.mem_iff_contains] at hknown
    -- a new target is a member that is not noted yet
    have hroom : closing.visited.size + closing.pending.size < limits.maxRequired := by
      rw [← card_noted hdisjoint]
      refine (Finset.card_lt_card ⟨hnoted, fun hsub => ?_⟩).trans_le hmembers
      exact (mem_noted.mp (hsub htarget)).elim hknown.1 hknown.2
    rw [require_of hroom]
    exact ⟨_, rfl⟩

theorem follow_loop_succeeds (hedges : closing.edges + targets.length ≤ limits.maxDependencyEdges)
    (hpermitted : ∀ target ∈ targets, policy.permitsDependency connection id target = true)
    (hdisjoint : ∀ id ∈ closing.pending, id ∉ closing.visited) (hnoted : closing.noted ⊆ members)
    (htargets : ∀ target ∈ targets, target ∈ members)
    (hmembers : members.card ≤ limits.maxRequired) :
    ∃ closing', loop (follow limits connection policy id) closing targets = .ok closing' := by
  induction targets generalizing closing with
  | nil => exact ⟨closing, rfl⟩
  | cons target targets ih =>
    rw [List.length_cons] at hedges
    obtain ⟨hfirst, hpermitted⟩ := List.forall_mem_cons.mp hpermitted
    obtain ⟨htarget, htargets⟩ := List.forall_mem_cons.mp htargets
    obtain ⟨next, hnext⟩ := follow_succeeds (by omega) hfirst hdisjoint hnoted htarget hmembers
    have hfollowed := follow_ok hnext
    have hcount := (follow_counts hnext).2.1
    have hnoted' : next.noted ⊆ members := fun other hother => by
      rcases (hfollowed.noted other).mp (mem_noted.mp hother).symm with hbefore | rfl
      · exact hnoted (mem_noted.mpr hbefore.symm)
      · exact htarget
    obtain ⟨closing', hrest⟩ :=
      ih (by omega) hpermitted (hfollowed.disjoint hdisjoint) hnoted' htargets
    exact ⟨closing', by rw [loop, hnext]; exact hrest⟩

/-- A round succeeds while what was visited and counted is part of a small permitted group. -/
theorem visit_succeeds (hclosable : graph.Closable connection view roots policy members)
    (hsound : Sound graph connection view policy roots closing)
    (hcounted : Counted graph connection view policy closing) (hid : id ∈ closing.pending) :
    ∃ closing', closing.visit graph connection view policy id = .ok closing' := by
  have hnoted : closing.noted ⊆ members := fun other hother =>
    (hclosable.reaches other).mpr (hsound.covers.sound other (mem_noted.mp hother).symm)
  have hmember : id ∈ members := hnoted (mem_noted.mpr (.inr hid))
  have hfresh := hsound.disjoint id hid
  have hpredictable := hclosable.predictable id hmember
  obtain ⟨entity, representation, hentity, hpermitted, hallowed⟩ := hpredictable.allowed
  have hdepends (target : EntityId) : graph.Depends id target ↔
      target ∈ entity.dependencies.toList := by
    rw [Graph.Depends, Graph.has_iff hentity, ExtTreeSet.mem_toList]
  have hedges : closing.edges + entity.dependencies.toList.length ≤
      graph.limits.maxDependencyEdges := by
    calc closing.edges + entity.dependencies.toList.length
        = ∑ other ∈ insert id closing.visitedIds, graph.edgesFrom other := by
          rw [Finset.sum_insert (by rwa [mem_visitedIds]), hcounted.edges, Graph.edgesFrom, hentity,
            Option.elim_some, ExtTreeSet.length_toList, Nat.add_comm]
      _ ≤ ∑ other ∈ members, graph.edgesFrom other := by
          refine Finset.sum_le_sum_of_subset (Finset.insert_subset hmember fun other hother => ?_)
          exact hnoted (mem_noted.mpr (.inl (mem_visitedIds.mp hother)))
      _ ≤ graph.limits.maxDependencyEdges := hclosable.edges
  unfold visit
  rw [obtainOr_eq_ok.mpr hentity]
  simp only [Except.bind]
  rw [obtainOr_eq_ok.mpr hpermitted]
  dsimp only
  rw [require_of hallowed]
  refine follow_loop_succeeds hedges (fun target htarget => ?_) (fun other hother => ?_)
    (fun other hother => ?_)
    (fun target htarget => ?_) hclosable.entities
  · exact hpredictable.edges target ((hdepends target).mpr htarget)
  · obtain ⟨hne, hother⟩ := (mem_set_erase _ _ _).mp hother
    rw [ExtTreeMap.mem_insert, Std.compare_eq_iff_eq]
    exact fun hmem => hmem.elim (fun heq => hne heq.symm) (hsound.disjoint other hother)
  · rcases mem_noted.mp hother with hother | hother
    · rw [ExtTreeMap.mem_insert, Std.compare_eq_iff_eq] at hother
      rcases hother with rfl | hother
      · exact hmember
      · exact hnoted (mem_noted.mpr (.inl hother))
    · exact hnoted (mem_noted.mpr (.inr ((mem_set_erase _ _ _).mp hother).2))
  · obtain ⟨root, hroot, hreach⟩ := (hclosable.reaches id).mp hmember
    exact (hclosable.reaches target).mpr ⟨root, hroot, hreach.tail ((hdepends target).mpr htarget)⟩

theorem rounds_succeed (hclosable : graph.Closable connection view roots policy members) (n : ℕ)
    (hsound : Sound graph connection view policy roots closing)
    (hcounted : Counted graph connection view policy closing) :
    ∃ closing', rounds graph connection view policy n closing = .ok closing' := by
  induction n generalizing closing with
  | zero => exact ⟨closing, rfl⟩
  | succ n ih =>
    rw [Closing.rounds]
    split
    · exact ⟨closing, rfl⟩
    · rename_i id hhead
      have hid : id ∈ closing.pending := ExtTreeSet.mem_toList.mp (List.mem_of_head? hhead)
      obtain ⟨next, hvisit⟩ := visit_succeeds hclosable hsound hcounted hid
      obtain ⟨closing', hrest⟩ :=
        ih (hsound.visit hid hvisit).1 (hcounted.visit (hsound.disjoint id hid) hvisit)
      exact ⟨closing', by rw [hvisit]; exact hrest⟩

end Closing

/-! ### The closure -/

namespace Graph
variable {graph : Graph} {connection : ℕ} {view : ConnectionView} {roots : ExtTreeSet EntityId}
  {policy : DisclosurePolicy}

theorem sound_start (hroots : roots.size ≤ graph.limits.maxRequired) :
    Closing.Sound graph connection view policy roots ⟨roots, ∅, 0⟩ :=
  ⟨.start fun _ => ExtTreeMap.not_mem_empty, fun _ _ => ExtTreeMap.not_mem_empty,
    by simpa using hroots, by simp⟩

theorem counted_start : Closing.Counted graph connection view policy ⟨roots, ∅, 0⟩ :=
  have hnone : Closing.visitedIds ⟨roots, ∅, 0⟩ = ∅ := Finset.eq_empty_of_forall_notMem fun _ hid =>
    ExtTreeMap.not_mem_empty (Closing.mem_visitedIds.mp hid)
  ⟨fun _ h => absurd h ExtTreeMap.not_mem_empty, by rw [hnone, Finset.sum_empty], Nat.zero_le _⟩

theorem required_closable {required : ExtTreeMap EntityId EligibleEntry}
    (h : graph.required connection view roots policy = .ok required) :
    graph.Closable connection view roots policy required.keys.toFinset := by
  have hreaches := (required_ok h).1
  obtain ⟨_, hroots, h⟩ := bind_eq_ok.mp h
  obtain ⟨closing, hrounds, rfl⟩ := map_eq_ok.mp h
  rw [require_eq_ok] at hroots
  have hstart : Closing.Sound graph connection view policy roots ⟨roots, ∅, 0⟩ := sound_start hroots
  have hsound := (hstart.rounds (by simp) hrounds).1
  have hcounted := counted_start.rounds hstart hrounds
  refine ⟨fun id => ?_,
    fun id hid => hcounted.predictable id (Closing.mem_visitedIds.mp hid), ?_, ?_⟩
  · rw [List.mem_toFinset, ExtTreeMap.mem_keys]
    exact hreaches id
  · have hroom := hsound.room
    have hcard := closing.card_visitedIds
    rw [Closing.visitedIds] at hcard
    omega
  · have hedges := hcounted.edges
    rw [Closing.visitedIds] at hedges
    rw [← hedges]
    exact hcounted.edges_le

/-- **The closure succeeds exactly on small permitted groups**, and is then what can be reached. -/
theorem required_iff (graph : Graph) (connection : ℕ) (view : ConnectionView)
    (roots : ExtTreeSet EntityId) (policy : DisclosurePolicy) :
    ((∃ required, graph.required connection view roots policy = .ok required) ↔
        ∃ members, graph.Closable connection view roots policy members) ∧
      ∀ required, graph.required connection view roots policy = .ok required →
        ∀ id, id ∈ required ↔ graph.Reaches roots id := by
  refine ⟨⟨fun ⟨required, h⟩ => ⟨_, required_closable h⟩, fun ⟨members, hclosable⟩ => ?_⟩,
    fun required h => (required_ok h).1⟩
  have hroots : roots.size ≤ graph.limits.maxRequired := by
    refine le_trans ?_ hclosable.entities
    rw [← ExtTreeSet.length_toList, ← List.toFinset_card_of_nodup (nodup_set_toList roots)]
    refine Finset.card_le_card fun id hid => (hclosable.reaches id).mpr ⟨id, ?_, .refl⟩
    exact ExtTreeSet.mem_toList.mp (List.mem_toFinset.mp hid)
  obtain ⟨closing, hrounds⟩ :=
    Closing.rounds_succeed hclosable graph.limits.maxRequired (sound_start hroots)
    counted_start
  refine ⟨closing.visited, ?_⟩
  rw [required, require_of hroots]
  simp only [Except.bind]
  rw [hrounds]
  rfl

end Graph
end Net.Interest
