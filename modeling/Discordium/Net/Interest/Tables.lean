import Discordium.Lib.Totals
import Discordium.Net.Interest.Graph

/-!
# Net — Interest — Tables

The six tables of the interest graph and its counters against the registrations they stand for.
`Tables` says that each table holds exactly the entities whose current registration has its route,
and that every footprint is the cell rectangle of the current registration; `Counts` and `Within`
say what the counters are and how far they go.  Taking an entity out of the tables and registering
it again each keep the tables.
-/

namespace Net.Interest.Graph
open Lib
open Std (ExtTreeMap ExtTreeSet)

variable {graph graph' : Graph}

/-- The entity is registered, with a property. -/
def Has (graph : Graph) (id : EntityId) (p : EntityRegistration → Prop) : Prop :=
  ∃ entity, graph.entities[id]? = some entity ∧ p entity

/-- The cells are the rectangle of a registration. -/
def FootprintOf (graph : Graph) (cells : ExtTreeSet Cell) (entity : EntityRegistration) : Prop :=
  ∃ span, graph.footprintSpan entity = .ok span ∧ cells = rectangle span

/-- Every table holds the entities whose current registration has its route. -/
structure Tables (graph : Graph) : Prop where
  id_eq : ∀ (id : EntityId) entity, graph.entities[id]? = some entity → entity.id = id
  footprints : ∀ (id : EntityId) cells,
    graph.footprints[id]? = some cells ↔ graph.Has id (graph.FootprintOf cells)
  spanned : ∀ (id : EntityId) entity, graph.entities[id]? = some entity → ∃ cells,
    graph.FootprintOf cells entity
  cells : ∀ cell id, id ∈ members graph.cells cell ↔ ∃ cells, graph.footprints[id]? = some cells ∧
    cell ∈ cells
  cells_trim : Trim graph.cells
  globals : ∀ id, id ∈ graph.globals ↔ graph.Has id (·.routes.global = true)
  owners : ∀ owner id, id ∈ members graph.owners owner ↔ graph.Has id (·.routes.owner = some owner)
  owners_trim : Trim graph.owners
  semantics : ∀ semantic id, id ∈ members graph.semantics semantic ↔
    graph.Has id (semantic ∈ ·.routes.semantic)
  semantics_trim : Trim graph.semantics
  dynamic : ∀ id, id ∈ graph.dynamic ↔ graph.Has id (needsRefresh · = true)
  indices : ∀ (index : ℕ) id, graph.indices[index]? = some id ↔ id.index = index ∧
    graph.Has id fun _ => True

/-- Every counter is the sum it stands for. -/
structure Counts (graph : Graph) : Prop where
  memberships : graph.memberships = total (·.size) graph.footprints
  routes : graph.routeMemberships = total routeCount graph.entities
  observers : graph.observers = total (·.observers.length) graph.connections

/-- A view is within the limits, and its observers stand in scenes that are ready. -/
structure ViewWithin (graph : Graph) (view : ConnectionView) : Prop where
  observers : view.observers.length ≤ graph.limits.maxObservers
  semanticGrants : view.semanticGrants.size ≤ graph.limits.maxSemanticGrants
  readyScenes : view.readyScenes.size ≤ graph.limits.maxReadyScenes
  observer : ∀ observer ∈ view.observers,
    graph.validPosition observer.position ∧ observer.sceneRevision ∈ view.readyScenes

/-- Every limit holds. -/
structure Within (graph : Graph) : Prop where
  entities : graph.entities.size ≤ graph.limits.maxEntities
  registration : ∀ (id : EntityId) entity, graph.entities[id]? = some entity →
    entity.dependencies.size ≤ graph.limits.maxRequired ∧
      entity.routes.semantic.size ≤ graph.limits.maxSemanticRoutesPerEntity
  footprint : ∀ (id : EntityId) cells, graph.footprints[id]? = some cells →
    cells.size ≤ graph.limits.maxCellsPerEntity
  cells : graph.cells.size ≤ graph.limits.maxCells
  memberships : graph.memberships ≤ graph.limits.maxMemberships
  routes : graph.routeMemberships ≤ graph.limits.maxRouteMemberships
  connections : graph.connections.size ≤ graph.limits.maxConnections
  views : ∀ (connection : ℕ) view, graph.connections[connection]? = some view →
    graph.ViewWithin view

structure Indexed (graph : Graph) : Prop where
  tables : graph.Tables
  counts : graph.Counts
  within : graph.Within

/-! ### Registrations -/

theorem has_erase {id : EntityId} (h : graph'.entities = graph.entities.erase id) (other : EntityId)
    (p : EntityRegistration → Prop) : graph'.Has other p ↔ graph.Has other p ∧ other ≠ id := by
  unfold Has
  rw [h, lookup_erase]
  split_ifs with hid
  · simp [hid]
  · rw [and_iff_left (Ne.symm hid)]

theorem has_insert {entity : EntityRegistration}
    (h : graph'.entities = graph.entities.insert entity.id entity) (other : EntityId)
    (p : EntityRegistration → Prop) :
    graph'.Has other p ↔ other = entity.id ∧ p entity ∨ graph.Has other p ∧ other ≠ entity.id := by
  unfold Has
  rw [h, lookup_insert]
  split_ifs with hid
  · simp [← hid]
  · simp [Ne.symm hid]

/-- What a footprint is depends on the limits only. -/
theorem footprintSpan_congr (h : graph'.limits = graph.limits) (entity : EntityRegistration) :
    graph'.footprintSpan entity = graph.footprintSpan entity := by
  cases graph
  cases graph'
  cases h
  rfl

theorem footprintOf_congr (h : graph'.limits = graph.limits) (cells : ExtTreeSet Cell)
    (entity : EntityRegistration) :
    graph'.FootprintOf cells entity ↔ graph.FootprintOf cells entity := by
  unfold FootprintOf
  rw [footprintSpan_congr h]

theorem ViewWithin.congr {view : ConnectionView} (h : graph.ViewWithin view)
    (hlimits : graph'.limits = graph.limits) : graph'.ViewWithin view := by
  obtain ⟨hobservers, hgrants, hscenes, hobserver⟩ := h
  rw [← hlimits] at hobservers hgrants hscenes
  refine ⟨hobservers, hgrants, hscenes, fun observer hmem => ?_⟩
  rw [validPosition, hlimits]
  exact hobserver observer hmem

/-! ### Taking an entity out -/

theorem removeIndices_none {id : EntityId} (h : graph.entities[id]? = none) :
    graph.removeIndices id = some graph := by
  rw [removeIndices, h]

/-- What the tables are without an entity. -/
structure Without (graph : Graph) (id : EntityId) (entity : EntityRegistration)
    (footprint : ExtTreeSet Cell) (graph' : Graph) : Prop where
  limits : graph'.limits = graph.limits
  entities : graph'.entities = graph.entities.erase id
  indices : graph'.indices = graph.indices.erase id.index
  dynamic : graph'.dynamic = graph.dynamic.erase id
  footprints : graph'.footprints = graph.footprints.erase id
  cells : graph'.cells = footprint.toList.foldl (fun cells cell => removeMember cells cell id)
    graph.cells
  globals : graph'.globals = graph.globals.erase id
  owners : graph'.owners = entity.routes.owner.toList.foldl
    (fun owners owner => removeMember owners owner id) graph.owners
  semantics : graph'.semantics = entity.routes.semantic.toList.foldl
    (fun semantics semantic => removeMember semantics semantic id) graph.semantics
  connections : graph'.connections = graph.connections
  observers : graph'.observers = graph.observers
  memberships : graph'.memberships + footprint.size = graph.memberships
  routes : graph'.routeMemberships + routeCount entity = graph.routeMemberships

theorem Indexed.removeIndices (h : graph.Indexed) {id : EntityId} {entity : EntityRegistration}
    (hentity : graph.entities[id]? = some entity) :
    ∃ footprint graph', graph.footprints[id]? = some footprint ∧ graph.removeIndices id =
      some graph' ∧ Without graph id entity footprint graph' := by
  obtain ⟨footprint, hspan⟩ := h.tables.spanned id entity hentity
  have hfootprint : graph.footprints[id]? = some footprint :=
    (h.tables.footprints id footprint).mpr ⟨entity, hentity, hspan⟩
  have hmemberships : checkedSub graph.memberships footprint.size =
      some (graph.memberships - footprint.size) := by
    refine checkedSub_eq_some.mpr ⟨?_, rfl⟩
    rw [h.counts.memberships]
    exact le_total _ hfootprint
  have hroutes : checkedSub graph.routeMemberships (routeCount entity) =
      some (graph.routeMemberships - routeCount entity) := by
    refine checkedSub_eq_some.mpr ⟨?_, rfl⟩
    rw [h.counts.routes]
    exact le_total _ hentity
  have hm := (checkedSub_eq_some.mp hmemberships).1
  have hr := (checkedSub_eq_some.mp hroutes).1
  obtain ⟨graph', hremoved⟩ : ∃ graph', graph.removeIndices id = some graph' := by
    rw [Graph.removeIndices, hentity]
    simp only [hfootprint, Option.getD_some, hmemberships, hroutes, Option.bind_some,
      Option.map_some]
    exact ⟨_, rfl⟩
  refine ⟨footprint, graph', hfootprint, hremoved, ?_⟩
  rw [Graph.removeIndices, hentity] at hremoved
  simp only [hfootprint, Option.getD_some, hmemberships, hroutes, Option.bind_some, Option.map_some,
    Option.some.injEq] at hremoved
  cases hremoved
  have howners :
      entity.routes.owner.elim graph.owners (fun owner => removeMember graph.owners owner id) =
      entity.routes.owner.toList.foldl (fun owners owner => removeMember owners owner id)
        graph.owners := by
    cases entity.routes.owner <;> rfl
  exact ⟨rfl, rfl, rfl, rfl, rfl, rfl, rfl, howners, rfl, rfl, rfl, Nat.sub_add_cancel hm,
    Nat.sub_add_cancel hr⟩

theorem Without.tables {id : EntityId} {entity : EntityRegistration} {footprint : ExtTreeSet Cell}
    (hw : Without graph id entity footprint graph') (h : graph.Tables)
    (hentity : graph.entities[id]? = some entity)
    (hfootprint : graph.footprints[id]? = some footprint) :
    graph'.Tables := by
  have hhas := fun other p => @has_erase graph graph' id hw.entities other p
  have hlookup : ∀ (other : EntityId) entity', graph'.entities[other]? = some entity' →
      graph.entities[other]? = some entity' ∧ id ≠ other := by
    intro other entity' hother
    rw [hw.entities, lookup_erase] at hother
    split_ifs at hother with hne
    exact ⟨hother, hne⟩
  have hof : ∀ cells, graph'.FootprintOf cells = graph.FootprintOf cells :=
    fun cells => funext fun entity => propext (footprintOf_congr hw.limits cells entity)
  have hself : ∀ p, graph.Has id p ↔ p entity := by
    intro p
    constructor
    · rintro ⟨entity', hentity', hp⟩
      cases hentity.symm.trans hentity'
      exact hp
    · exact fun hp => ⟨entity, hentity, hp⟩
  refine ⟨fun other entity' hother => h.id_eq _ _ (hlookup _ _ hother).1, fun other cells => ?_,
    fun other entity' hother => ?_, fun cell other => ?_, ?_, fun other => ?_,
    fun owner other => ?_, ?_,
    fun semantic other => ?_, ?_, fun other => ?_, fun index other => ?_⟩
  · rw [hhas, hof, ← h.footprints, hw.footprints, lookup_erase]
    split_ifs with hne
    · simp [hne]
    · rw [and_iff_left (Ne.symm hne)]
  · obtain ⟨cells, hcells⟩ := h.spanned other entity' (hlookup _ _ hother).1
    exact ⟨cells, by rwa [hof]⟩
  · have hkeys : ∀ cell, id ∈ members graph.cells cell → cell ∈ footprint.toList := by
      intro cell hmem
      obtain ⟨cells, hcells, hmem⟩ := (h.cells cell id).mp hmem
      cases hfootprint.symm.trans hcells
      exact ExtTreeSet.mem_toList.mpr hmem
    rw [hw.cells, mem_withdraw hkeys, h.cells, hw.footprints, lookup_erase]
    split_ifs with hne
    · simp [hne]
    · rw [and_iff_left (Ne.symm hne)]
  · rw [hw.cells]
    exact h.cells_trim.foldl_removeMember _ _
  · rw [hw.globals, mem_set_erase, h.globals, hhas, and_comm]
  · have hkeys : ∀ owner, id ∈ members graph.owners owner → owner ∈ entity.routes.owner.toList := by
      intro owner hmem
      rw [Option.mem_toList]
      exact (hself _).mp ((h.owners owner id).mp hmem)
    rw [hw.owners, mem_withdraw hkeys, h.owners, hhas]
  · rw [hw.owners]
    exact h.owners_trim.foldl_removeMember _ _
  · have hkeys : ∀ semantic, id ∈ members graph.semantics semantic →
        semantic ∈ entity.routes.semantic.toList := by
      intro semantic hmem
      rw [ExtTreeSet.mem_toList]
      exact (hself _).mp ((h.semantics semantic id).mp hmem)
    rw [hw.semantics, mem_withdraw hkeys, h.semantics, hhas]
  · rw [hw.semantics]
    exact h.semantics_trim.foldl_removeMember _ _
  · rw [hw.dynamic, mem_set_erase, h.dynamic, hhas, and_comm]
  · rw [hhas, ← and_assoc, ← h.indices, hw.indices, lookup_erase]
    split_ifs with hindex
    · -- the index is the entity's own, and no other entity has it
      simp only [false_iff, not_and, not_not]
      intro hother
      have hid : graph.indices[index]? = some id :=
        (h.indices index id).mpr ⟨hindex, entity, hentity, trivial⟩
      exact Option.some.inj (hother.symm.trans hid)
    · refine (and_iff_left_of_imp ?_).symm
      rintro hother rfl
      exact hindex ((h.indices index other).mp hother).1

section without
variable {id : EntityId} {entity : EntityRegistration} {footprint : ExtTreeSet Cell}

theorem Without.counts (hw : Without graph id entity footprint graph') (h : graph.Counts)
    (hentity : graph.entities[id]? = some entity)
    (hfootprint : graph.footprints[id]? = some footprint) :
    graph'.Counts := by
  have hm := total_erase (·.size) hfootprint
  have hr := total_erase routeCount hentity
  have hmemberships := hw.memberships
  have hroutes := hw.routes
  rw [h.memberships, hm] at hmemberships
  rw [h.routes, hr] at hroutes
  refine ⟨?_, ?_, ?_⟩
  · rw [hw.footprints]
    omega
  · rw [hw.entities]
    omega
  · rw [hw.observers, hw.connections, h.observers]

theorem Without.within (hw : Without graph id entity footprint graph') (h : graph.Tables)
    (h' : graph'.Tables) (hwithin : graph.Within) : graph'.Within := by
  have hmemberships := hw.memberships
  have hroutes := hw.routes
  have hlimits := hw.limits
  refine ⟨?_, fun other entity' hother => ?_, fun other cells hother => ?_, ?_, ?_, ?_, ?_,
    fun connection view hview => ?_⟩
  · rw [hw.entities, hlimits]
    exact (ExtTreeMap.size_erase_le).trans hwithin.entities
  · rw [hw.entities, lookup_erase] at hother
    split_ifs at hother
    rw [hlimits]
    exact hwithin.registration other entity' hother
  · rw [hw.footprints, lookup_erase] at hother
    split_ifs at hother
    rw [hlimits]
    exact hwithin.footprint other cells hother
  · rw [hlimits]
    refine (size_le_size fun cell hcell => ?_).trans hwithin.cells
    obtain ⟨other, hother⟩ := h'.cells_trim.contains_iff.mp hcell
    obtain ⟨cells, hcells, hmem⟩ := (h'.cells cell other).mp hother
    rw [hw.footprints, lookup_erase] at hcells
    split_ifs at hcells
    exact h.cells_trim.contains_iff.mpr ⟨other, (h.cells cell other).mpr ⟨cells, hcells, hmem⟩⟩
  · rw [hlimits]
    have := hwithin.memberships
    omega
  · rw [hlimits]
    have := hwithin.routes
    omega
  · rw [hlimits, hw.connections]
    exact hwithin.connections
  · rw [hw.connections] at hview
    exact (hwithin.views connection view hview).congr hlimits

end without

/-! ### Registering an entity -/

theorem FootprintOf.unique {cells cells' : ExtTreeSet Cell} {entity : EntityRegistration}
    (h : graph.FootprintOf cells entity) (h' : graph.FootprintOf cells' entity) :
    cells = cells' := by
  obtain ⟨span, hspan, rfl⟩ := h
  obtain ⟨span', hspan', rfl⟩ := h'
  cases hspan.symm.trans hspan'
  rfl

/-- The new registration passes its checks, and the tables do not have the entity. -/
structure Registrable (graph : Graph) (entity : EntityRegistration)
    (footprint : ExtTreeSet Cell) : Prop where
  absent : graph.entities[entity.id]? = none
  index_free : graph.indices[entity.id.index]? = none
  footprint : graph.FootprintOf footprint entity

theorem Registrable.tables {entity : EntityRegistration} {footprint : ExtTreeSet Cell}
    (h : graph.Tables) (hr : Registrable graph entity footprint) (memberships routes : ℕ) :
    (graph.register entity footprint memberships routes).Tables := by
  set graph' := graph.register entity footprint memberships routes with hgraph'
  have hhas := fun other p => @has_insert graph graph' entity rfl other p
  have hlookup : ∀ (other : EntityId) entity', graph'.entities[other]? = some entity' →
      entity.id = other ∧ entity' = entity ∨ entity.id ≠ other ∧ graph.entities[other]? =
        some entity' := by
    intro other entity' hother
    rw [hgraph', register, lookup_insert] at hother
    split_ifs at hother with hne
    · exact .inl ⟨hne, (Option.some.inj hother).symm⟩
    · exact .inr ⟨hne, hother⟩
  have hof : ∀ cells, graph'.FootprintOf cells = graph.FootprintOf cells :=
    fun cells => funext fun entity => propext (footprintOf_congr rfl cells entity)
  -- an entity the tables do not have is not the new one
  have hother : ∀ other p, graph.Has other p → other ≠ entity.id := by
    rintro other p ⟨entity', hentity', -⟩ rfl
    rw [hr.absent] at hentity'
    cases hentity'
  have hhas : ∀ other p, graph'.Has other p ↔ other = entity.id ∧ p entity ∨ graph.Has other p := by
    intro other p
    rw [hhas, and_iff_left_of_imp (hother other p)]
  have hfootprint : ∀ (other : EntityId) cells, graph.footprints[other]? = some cells →
      other ≠ entity.id :=
    fun other cells hcells => hother other _ ((h.footprints other cells).mp hcells)
  refine ⟨fun other entity' hentity' => ?_, fun other cells => ?_, fun other entity' hentity' => ?_,
    fun cell other => ?_, h.cells_trim.foldl_addMember _ _, fun other => ?_,
    fun owner other => ?_, ?_,
    fun semantic other => ?_, h.semantics_trim.foldl_addMember _ _, fun other => ?_,
    fun index other => ?_⟩
  · rcases hlookup other entity' hentity' with ⟨rfl, rfl⟩ | ⟨-, hentity'⟩
    · rfl
    · exact h.id_eq other entity' hentity'
  · rw [hhas, hof, ← h.footprints, hgraph', register, lookup_insert]
    split_ifs with hid
    · constructor
      · intro hsome
        cases hsome
        exact .inl ⟨hid.symm, hr.footprint⟩
      · rintro (⟨-, hcells⟩ | hcells)
        · rw [hr.footprint.unique hcells]
        · exact absurd hid.symm (hfootprint other cells hcells)
    · rw [or_iff_right fun hnew => hid hnew.1.symm]
  · rcases hlookup other entity' hentity' with ⟨rfl, rfl⟩ | ⟨-, hentity'⟩
    · exact ⟨footprint, by rw [hof]; exact hr.footprint⟩
    · obtain ⟨cells, hcells⟩ := h.spanned other entity' hentity'
      exact ⟨cells, by rwa [hof]⟩
  · rw [hgraph', register, mem_foldl_addMember, h.cells, lookup_insert, ExtTreeSet.mem_toList]
    split_ifs with hid
    · constructor
      · rintro (⟨hcell, -⟩ | ⟨cells, hcells, -⟩)
        · exact ⟨footprint, rfl, hcell⟩
        · exact absurd hid.symm (hfootprint other cells hcells)
      · rintro ⟨cells, hcells, hcell⟩
        cases hcells
        exact .inl ⟨hcell, hid.symm⟩
    · rw [or_iff_right fun hnew => hid hnew.2.symm]
  · rw [hhas, ← h.globals, hgraph', register]
    dsimp only
    split_ifs with hglobal
    · rw [mem_set_insert, and_iff_left hglobal]
    · rw [or_iff_right fun hnew => hglobal hnew.2]
  · rw [hhas, ← h.owners, hgraph', register]
    cases howner : entity.routes.owner with
    | none => simp
    | some owner' =>
      simp only [Option.elim_some, mem_addMember, Option.some.injEq]
      tauto
  · rw [hgraph', register]
    cases entity.routes.owner with
    | none => exact h.owners_trim
    | some owner => exact h.owners_trim.addMember _ _
  · rw [hhas, ← h.semantics, hgraph', register, mem_foldl_addMember, ExtTreeSet.mem_toList]
    tauto
  · rw [hhas, ← h.dynamic, hgraph', register]
    dsimp only
    split_ifs with hdynamic
    · rw [mem_set_insert, and_iff_left hdynamic]
    · rw [or_iff_right fun hnew => hdynamic hnew.2]
  · rw [hhas, hgraph', register, lookup_insert]
    have hfree := h.indices entity.id.index
    rw [hr.index_free] at hfree
    split_ifs with hindex
    · constructor
      · intro hsome
        cases hsome
        exact ⟨hindex, .inl ⟨rfl, trivial⟩⟩
      · rintro ⟨hi, ⟨rfl, -⟩ | hold⟩
        · rfl
        · exact absurd ((hfree other).mpr ⟨hi.trans hindex.symm, hold⟩) (by simp)
    · rw [h.indices]
      constructor
      · rintro ⟨hi, hold⟩
        exact ⟨hi, .inr hold⟩
      · rintro ⟨hi, ⟨rfl, -⟩ | hold⟩
        · exact absurd hi hindex
        · exact ⟨hi, hold⟩

end Net.Interest.Graph
