import Discordium.Net.Interest.Tables

/-!
# Net — Interest — Indexed

The calls of the interest graph keep its tables.  A plan that passes its checks says what the tables
come to: either the same-footprint shortcut, which leaves them to a registration with the same
routes and the same span, or a re-indexing whose number of cells is the one that was checked.

**The index invariant** (`graph_indexed`).  It holds after every run of calls, no call panics, and a
call that returns an error leaves the graph unchanged.
-/

namespace Net.Interest.Graph
open Lib
open Std (ExtTreeMap ExtTreeSet)

variable {graph graph' : Graph}

/-! ### Spans -/

theorem length_intRange (low high : ℤ) : (intRange low high).length = (high - low + 1).toNat := by
  rw [intRange, List.length_map, List.length_range]

/-- The corners of the cells that an entity's influence touches. -/
def corners (graph : Graph) (entity : EntityRegistration) : Cell × Cell :=
  (graph.cell (entity.bounds.center.x - graph.influence entity) (entity.bounds.center.z -
    graph.influence entity), graph.cell (entity.bounds.center.x + graph.influence entity)
      (entity.bounds.center.z + graph.influence entity))

variable {entity old : EntityRegistration} {span : Option (Cell × Cell)}
  {footprint : ExtTreeSet Cell} {id : EntityId}

/-- **Inversion of `footprint_span`.** -/
theorem footprintSpan_ok (h : graph.footprintSpan entity = .ok span) :
    0 ≤ entity.bounds.radius ∧ 0 ≤ entity.cullRadius ∧
      (entity.routes.spatial = none ∧ span = none ∨
        entity.routes.spatial ≠ none ∧ span = some (graph.corners entity) ∧
          (cellsBetween (graph.corners entity).1 (graph.corners entity).2).length ≤
            graph.limits.maxCellsPerEntity) := by
  unfold footprintSpan at h
  split at h
  · cases h
  rename_i hvalid
  dsimp only at h
  split at h
  · cases h
  simp only [not_or, not_lt] at hvalid
  refine ⟨hvalid.2.1, hvalid.2.2, ?_⟩
  split at h
  · rename_i hnone
    cases h
    exact .inl ⟨Option.isNone_iff_eq_none.mp hnone, rfl⟩
  rename_i hsome
  split at h
  · cases h
  rename_i hcount
  cases h
  refine .inr ⟨fun hnone => hsome (by rw [hnone]; rfl), rfl,
    le_trans (le_of_eq ?_) (not_lt.mp hcount)⟩
  simp [cellsBetween, length_intRange, corners]

/-- A footprint has no more cells than its span was checked for. -/
theorem FootprintOf.size_le {cells : ExtTreeSet Cell}
    (h : graph.FootprintOf cells entity) : cells.size ≤ graph.limits.maxCellsPerEntity := by
  obtain ⟨span, hspan, rfl⟩ := h
  obtain ⟨-, -, ⟨-, rfl⟩ | ⟨-, rfl, hcount⟩⟩ := footprintSpan_ok hspan
  · exact Nat.zero_le _
  · exact ExtTreeSet.size_ofList_le.trans hcount

/-! ### Checks -/

/-- What the checks of an upsert let through. -/
structure Checked (graph : Graph) (entity : EntityRegistration) : Prop where
  index_own : ∀ id, graph.indices[entity.id.index]? = some id → id = entity.id
  room : graph.entities[entity.id]? = none → graph.entities.size < graph.limits.maxEntities
  dependencies_le : entity.dependencies.size ≤ graph.limits.maxRequired
  semantic_le : entity.routes.semantic.size ≤ graph.limits.maxSemanticRoutesPerEntity

theorem validateEntity_ok {u : Unit} (h : graph.validateEntity entity = .ok u) :
    graph.Checked entity := by
  unfold validateEntity at h
  dsimp only at h
  split_ifs at h with _ hindex _ hroom hdependencies hsemantic
  refine ⟨fun id hid => ?_, fun hnone => ?_, not_lt.mp hdependencies, not_lt.mp hsemantic⟩
  · by_contra hne
    exact hindex (by simp [hid, hne])
  · by_contra hfull
    exact hroom ⟨by rw [hnone]; rfl, not_lt.mp hfull⟩

/-- The span follows from the geometry and the routes. -/
theorem footprintSpan_of_same (hroutes : old.routes = entity.routes)
    (hbounds : old.bounds = entity.bounds) (hcull : old.cullRadius = entity.cullRadius) :
    graph.footprintSpan old = graph.footprintSpan entity := by
  unfold footprintSpan influence
  rw [hroutes, hbounds, hcull]

/-- The tables with an entity registered under a footprint are within the limits. -/
structure Fits (graph : Graph) (entity : EntityRegistration) (footprint : ExtTreeSet Cell)
    (memberships routes : ℕ) : Prop where
  checked : graph.Checked entity
  covers : graph.FootprintOf footprint entity
  memberships_eq : memberships + graph.footprints[entity.id]?.elim 0 (·.size) =
    graph.memberships + footprint.size
  memberships_le : memberships ≤ graph.limits.maxMemberships
  cells : graph.cells.size + (footprint.toList.filter fun cell =>
    !graph.cells.contains cell).length ≤ graph.limits.maxCells + graph.freed entity.id footprint
  routes_eq : routes + graph.entities[entity.id]?.elim 0 routeCount =
    graph.routeMemberships + routeCount entity
  routes_le : routes ≤ graph.limits.maxRouteMemberships

/-- **What the plan of an upsert has checked**: it is no panic, and its tables fit. -/
inductive Planned (graph : Graph) (entity : EntityRegistration) : Except Stop Plan → Prop
  | refused (error : GraphError) : Planned graph entity (.error (.error error))
  | refresh (old : EntityRegistration) (span : Option (Cell × Cell))
      (hold : graph.entities[entity.id]? = some old) (hchecked : graph.Checked entity)
      (hroutes : old.routes = entity.routes) (hspan : graph.footprintSpan old = .ok span)
      (hspan' : graph.footprintSpan entity = .ok span) : Planned graph entity (.ok .refresh)
  | reindex (footprint : ExtTreeSet Cell) (memberships routes : ℕ)
      (hfits : graph.Fits entity footprint memberships routes) :
      Planned graph entity (.ok (.reindex footprint memberships routes))

/-- The freed cells of an old footprint. -/
def freedCells (graph : Graph) (old footprint : ExtTreeSet Cell) : List Cell :=
  old.toList.filter fun cell => !footprint.contains cell && graph.cells[cell]?.any (·.size = 1)

theorem nodup_freedCells (old footprint : ExtTreeSet Cell) :
    (graph.freedCells old footprint).Nodup :=
  (nodup_set_toList old).filter _

theorem freed_le (id : EntityId) (footprint : ExtTreeSet Cell) :
    graph.freed id footprint ≤ graph.cells.size := by
  unfold freed
  cases graph.footprints[id]? with
  | none => exact Nat.zero_le _
  | some old =>
    rw [Option.elim_some, ← ExtTreeMap.length_keys]
    refine ((nodup_freedCells old footprint).subperm fun cell hcell => ?_).length_le
    have hsome := (Bool.and_eq_true_iff.mp (List.mem_filter.mp hcell).2).2
    rw [ExtTreeMap.mem_keys, ExtTreeMap.mem_iff_contains, contains_eq_isSome]
    exact Option.isSome_of_any hsome

theorem Indexed.reindexing (h : graph.Indexed)
    (hchecked : graph.Checked entity) (hfootprint : graph.FootprintOf footprint entity) :
    Planned graph entity (graph.reindexing entity footprint) := by
  have hold : graph.footprints[entity.id]?.elim 0 (·.size) ≤ graph.memberships := by
    rw [h.counts.memberships]
    cases hcells : graph.footprints[entity.id]? with
    | none => exact Nat.zero_le _
    | some cells => exact le_total (·.size) hcells
  have hroute : graph.entities[entity.id]?.elim 0 routeCount ≤ graph.routeMemberships := by
    rw [h.counts.routes]
    cases hentity : graph.entities[entity.id]? with
    | none => exact Nat.zero_le _
    | some old => exact le_total routeCount hentity
  have hfreed := @freed_le graph entity.id footprint
  unfold Graph.reindexing
  dsimp only
  rw [checkedSub_eq_some.mpr ⟨hold, rfl⟩, checkedSub_eq_some.mpr ⟨hfreed, rfl⟩,
    checkedSub_eq_some.mpr ⟨hroute, rfl⟩]
  simp only [obtainOr, Except.bind]
  by_cases hmemberships : graph.memberships - graph.footprints[entity.id]?.elim 0 (·.size) +
      footprint.size ≤ graph.limits.maxMemberships
  · rw [require_of hmemberships]
    by_cases hcells : graph.cells.size - graph.freed entity.id footprint +
        (footprint.toList.filter fun cell => !graph.cells.contains cell).length ≤
          graph.limits.maxCells
    · rw [require_of hcells]
      by_cases hroutes : graph.routeMemberships - graph.entities[entity.id]?.elim 0 routeCount +
          routeCount entity ≤ graph.limits.maxRouteMemberships
      · rw [require_of hroutes]
        exact .reindex _ _ _ ⟨hchecked, hfootprint, by omega, hmemberships, by omega, by omega,
          hroutes⟩
      · rw [require_of_not hroutes]
        exact .refused _
    · rw [require_of_not hcells]
      exact .refused _
  · rw [require_of_not hmemberships]
    exact .refused _

/-- The plan once the span of the new registration is known, for a footprint that may have
changed. -/
theorem Indexed.planned_of_span (h : graph.Indexed)
    (hchecked : graph.Checked entity) (hspan : graph.footprintSpan entity = .ok span)
    (hgeometry : sameRoutes graph.entities[entity.id]? entity = true →
      sameGeometry graph.entities[entity.id]? entity = false) :
    Planned graph entity ((graph.sameFootprint entity (some span)).bind fun same =>
      if same then .ok .refresh else graph.reindexing entity (rectangle span)) := by
  have hreindex := h.reindexing hchecked ⟨span, hspan, rfl⟩
  unfold sameFootprint
  dsimp only
  cases hroutes : sameRoutes graph.entities[entity.id]? entity with
  | false => exact hreindex
  | true =>
    rw [hgeometry hroutes]
    cases hold : graph.entities[entity.id]? with
    | none =>
      rw [hold] at hroutes
      cases hroutes
    | some old =>
      rw [hold] at hroutes
      obtain ⟨cells, oldSpan, holdSpan, -⟩ := h.tables.spanned _ _ hold
      simp only [Bool.not_true, Bool.false_eq_true, if_false, obtainOr, Except.bind,
        holdSpan, stopping, Except.map]
      by_cases hsame : oldSpan = span
      · subst hsame
        rw [if_pos (decide_eq_true rfl)]
        exact .refresh old oldSpan hold hchecked (of_decide_eq_true hroutes) holdSpan hspan
      · rw [if_neg (by simpa using hsame)]
        exact hreindex

theorem Indexed.planned (h : graph.Indexed) (entity : EntityRegistration) :
    Planned graph entity (graph.plan entity) := by
  unfold plan
  dsimp only
  cases hvalid : graph.validateEntity entity with
  | error error => exact .refused error
  | ok u =>
    have hchecked := validateEntity_ok hvalid
    simp only [stopping, Except.bind]
    by_cases hsame : sameRoutes graph.entities[entity.id]? entity = true ∧
        sameGeometry graph.entities[entity.id]? entity = true
    · -- the same routes and geometry: the span is the old one, and nothing is computed
      rw [if_pos hsame]
      simp only [sameFootprint, hsame.1, hsame.2, Bool.not_true, Bool.false_eq_true,
        if_false, if_true]
      cases hold : graph.entities[entity.id]? with
      | none => simp [hold, sameRoutes] at hsame
      | some old =>
        simp only [hold, sameRoutes, sameGeometry, Option.any_some, Bool.and_eq_true,
          decide_eq_true_eq] at hsame
        obtain ⟨hroutes, hbounds, hcull⟩ := hsame
        obtain ⟨cells, span, hspan, -⟩ := h.tables.spanned _ _ hold
        exact .refresh old span hold hchecked hroutes hspan
          (by rw [← footprintSpan_of_same hroutes hbounds hcull, hspan])
    · rw [if_neg hsame]
      cases hspan : graph.footprintSpan entity with
      | error error => exact .refused error
      | ok span =>
        refine h.planned_of_span hchecked hspan fun hroutes => ?_
        exact Bool.eq_false_iff.mpr fun hgeometry => hsame ⟨hroutes, hgeometry⟩

/-! ### Re-indexing -/

/-- What the tables have for one entity is replaced, and nothing else of the footprints. -/
def Refooted (graph : Graph) (id : EntityId) (footprint : ExtTreeSet Cell)
    (graph' : Graph) : Prop :=
  ∀ other : EntityId, graph'.footprints[other]? =
    if id = other then some footprint else graph.footprints[other]?

theorem Refooted.contains_iff (h : graph.Tables)
    (h' : graph'.Tables) (hfoot : Refooted graph id footprint graph') (cell : Cell) :
    graph'.cells.contains cell = true ↔
      cell ∈ footprint ∨ ∃ other, other ≠ id ∧ other ∈ members graph.cells cell := by
  rw [h'.cells_trim.contains_iff]
  constructor
  · rintro ⟨other, hother⟩
    obtain ⟨cells, hcells, hmem⟩ := (h'.cells cell other).mp hother
    rw [hfoot other] at hcells
    split_ifs at hcells with hid
    · cases hcells
      exact .inl hmem
    · exact .inr ⟨other, Ne.symm hid, (h.cells cell other).mpr ⟨cells, hcells, hmem⟩⟩
  · rintro (hcell | ⟨other, hne, hother⟩)
    · exact ⟨id, (h'.cells cell id).mpr ⟨footprint, by rw [hfoot id, if_pos rfl], hcell⟩⟩
    · obtain ⟨cells, hcells, hmem⟩ := (h.cells cell other).mp hother
      exact ⟨other, (h'.cells cell other).mpr ⟨cells,
        by rw [hfoot other, if_neg (Ne.symm hne), hcells], hmem⟩⟩

/-- The freed cells of an entity. -/
def freedBy (graph : Graph) (id : EntityId) (footprint : ExtTreeSet Cell) : List Cell :=
  graph.footprints[id]?.elim [] fun old => graph.freedCells old footprint

theorem length_freedBy (id : EntityId) (footprint : ExtTreeSet Cell) :
    (graph.freedBy id footprint).length = graph.freed id footprint := by
  unfold freedBy freed
  cases graph.footprints[id]? <;> rfl

theorem nodup_freedBy (id : EntityId) (footprint : ExtTreeSet Cell) :
    (graph.freedBy id footprint).Nodup := by
  unfold freedBy
  cases graph.footprints[id]? with
  | none => exact List.nodup_nil
  | some old => exact nodup_freedCells old footprint

/-- They are those it was alone in and is not in any more. -/
theorem mem_freedBy (h : graph.Tables) (cell : Cell) :
    cell ∈ graph.freedBy id footprint ↔ cell ∉ footprint ∧ id ∈ members graph.cells cell ∧
      ∀ other, other ∈ members graph.cells cell → other = id := by
  unfold freedBy
  rw [h.cells]
  cases hold : graph.footprints[id]? with
  | none => simp
  | some old =>
    have hin : (∃ cells, some old = some cells ∧ cell ∈ cells) ↔ cell ∈ old := by simp
    simp only [Option.elim_some, freedCells, List.mem_filter, ExtTreeSet.mem_toList,
      Bool.and_eq_true, hin]
    rw [Bool.not_eq_true', Bool.eq_false_iff, ne_eq, ← ExtTreeSet.mem_iff_contains, and_left_comm]
    refine and_congr_right fun _ => and_congr_right fun hcell => ?_
    have hmem : id ∈ members graph.cells cell := (h.cells cell id).mpr ⟨old, hold, hcell⟩
    cases hfiled : graph.cells[cell]? with
    | none => simp [members, hfiled] at hmem
    | some filed =>
      rw [members, hfiled, Option.getD_some] at hmem ⊢
      rw [Option.any_some, decide_eq_true_eq, size_eq_one_iff hmem]

/-- The number of cells after a re-indexing is the one its check computed. -/
theorem Refooted.size (h : graph.Tables) (h' : graph'.Tables)
    (hfoot : Refooted graph id footprint graph') :
    graph'.cells.size + graph.freed id footprint =
      graph.cells.size + (footprint.toList.filter fun cell =>
        !graph.cells.contains cell).length := by
  set allocated := footprint.toList.filter fun cell => !graph.cells.contains cell with hallocated
  have hkeys : ∀ cell, cell ∈ graph.cells.keys ↔ ∃ other, other ∈ members graph.cells cell := by
    intro cell
    rw [ExtTreeMap.mem_keys, ExtTreeMap.mem_iff_contains, h.cells_trim.contains_iff]
  have hmem_allocated : ∀ cell, cell ∈ allocated ↔ cell ∈ footprint ∧ cell ∉ graph.cells.keys := by
    intro cell
    rw [hallocated, List.mem_filter, ExtTreeSet.mem_toList, ExtTreeMap.mem_keys, Bool.not_eq_true',
      Bool.eq_false_iff, ne_eq, ← ExtTreeMap.mem_iff_contains]
  -- the keys that are left, and the new ones
  have hsize : graph'.cells.size =
      (graph.cells.keys.filter (· ∉ graph.freedBy id footprint) ++ allocated).length := by
    refine size_eq_length ?_ fun cell => ?_
    · refine List.Nodup.append ((nodup_keys _).filter _) ?_ fun cell hkept hnew => ?_
      · exact (nodup_set_toList _).filter _
      · exact ((hmem_allocated cell).mp hnew).2 (List.mem_filter.mp hkept).1
    · rw [hfoot.contains_iff h h', List.mem_append, List.mem_filter, hmem_allocated,
        decide_eq_true_eq, mem_freedBy h, hkeys]
      constructor
      · rintro (⟨⟨other, hother⟩, hkept⟩ | ⟨hcell, -⟩)
        · by_cases hcell : cell ∈ footprint
          · exact .inl hcell
          · by_contra hnone
            push Not at hnone
            have hid : ∀ other, other ∈ members graph.cells cell → other = id := by
              intro other hother
              by_contra hne
              exact hnone.2 other hne hother
            exact hkept ⟨hcell, hid other hother ▸ hother, hid⟩
        · exact .inl hcell
      · rintro (hcell | ⟨other, hne, hother⟩)
        · by_cases hold : ∃ other, other ∈ members graph.cells cell
          · exact .inl ⟨hold, fun hfreed => hfreed.1 hcell⟩
          · exact .inr ⟨hcell, hold⟩
        · exact .inl ⟨⟨other, hother⟩, fun hfreed => hne (hfreed.2.2 other hother)⟩
  have hfreed : (graph.cells.keys.filter (· ∈ graph.freedBy id footprint)).length =
      graph.freed id footprint := by
    rw [← length_freedBy]
    refine List.Perm.length_eq ((List.perm_ext_iff_of_nodup ((nodup_keys _).filter _)
      (nodup_freedBy id footprint)).mpr fun cell => ?_)
    rw [List.mem_filter, decide_eq_true_eq]
    refine and_iff_right_of_imp fun hcell =>
      (hkeys cell).mpr ⟨id, ((mem_freedBy h cell).mp hcell).2.1⟩
  have hsplit := List.length_eq_length_filter_add (l := graph.cells.keys)
    (f := fun cell => decide (cell ∈ graph.freedBy id footprint))
  rw [ExtTreeMap.length_keys, hfreed] at hsplit
  rw [hsize, List.length_append]
  simp only [decide_not] at hsplit ⊢
  omega

/-- The tables without the entity, whether or not they had it. -/
structure Cleared (graph : Graph) (id : EntityId) (graph' : Graph) : Prop where
  tables : graph'.Tables
  counts : graph'.Counts
  within : graph'.Within
  limits : graph'.limits = graph.limits
  entities : graph'.entities = graph.entities.erase id
  footprints : graph'.footprints = graph.footprints.erase id
  memberships : graph'.memberships + graph.footprints[id]?.elim 0 (·.size) = graph.memberships
  routes : graph'.routeMemberships + graph.entities[id]?.elim 0 routeCount = graph.routeMemberships
  index_free : (∀ other, graph.indices[id.index]? = some other → other = id) →
    graph'.indices[id.index]? = none

/-- **`remove_indices` does not panic, and clears the tables of the entity.** -/
theorem Indexed.cleared (h : graph.Indexed) (id : EntityId) :
    ∃ graph', graph.removeIndices id = some graph' ∧ Cleared graph id graph' := by
  cases hentity : graph.entities[id]? with
  | none =>
    have hfootprint : graph.footprints[id]? = none := by
      cases hcells : graph.footprints[id]? with
      | none => rfl
      | some cells =>
        obtain ⟨entity, hsome, -⟩ := (h.tables.footprints id cells).mp hcells
        rw [hentity] at hsome
        cases hsome
    refine ⟨graph, removeIndices_none hentity, h.tables, h.counts, h.within, rfl,
      (erase_of_none hentity).symm, (erase_of_none hfootprint).symm, by rw [hfootprint]; rfl,
      by rw [hentity]; rfl, fun hown => ?_⟩
    cases hindex : graph.indices[id.index]? with
    | none => rfl
    | some other =>
      obtain rfl := hown other hindex
      obtain ⟨-, entity, hsome, -⟩ := (h.tables.indices _ other).mp hindex
      rw [hentity] at hsome
      cases hsome
  | some entity =>
    obtain ⟨footprint, graph', hfootprint, hremoved, hw⟩ := h.removeIndices hentity
    have htables := hw.tables h.tables hentity hfootprint
    refine ⟨graph', hremoved, htables, hw.counts h.counts hentity hfootprint,
      hw.within h.tables htables h.within, hw.limits, hw.entities, hw.footprints,
      by rw [hfootprint]; exact hw.memberships, by rw [hentity]; exact hw.routes, fun _ => ?_⟩
    rw [hw.indices, lookup_erase, if_pos rfl]

theorem Indexed.reindex (h : graph.Indexed)
    {memberships routes : ℕ} (hcleared : Cleared graph entity.id graph')
    (hfits : graph.Fits entity footprint memberships routes) :
    (graph'.register entity footprint memberships routes).Indexed := by
  have habsent : graph'.entities[entity.id]? = none := by
    rw [hcleared.entities, lookup_erase, if_pos rfl]
  have hnone : graph'.footprints[entity.id]? = none := by
    rw [hcleared.footprints, lookup_erase, if_pos rfl]
  have hregistrable : Registrable graph' entity footprint :=
    ⟨habsent, hcleared.index_free hfits.checked.index_own,
      (footprintOf_congr hcleared.limits _ _).mpr hfits.covers⟩
  have htables := hregistrable.tables hcleared.tables memberships routes
  have hfoot :
      Refooted graph entity.id footprint (graph'.register entity footprint memberships routes) := by
    intro other
    rw [register, lookup_insert, hcleared.footprints, lookup_erase]
    split_ifs <;> rfl
  have hlimits : (graph'.register entity footprint memberships routes).limits = graph.limits :=
    hcleared.limits
  obtain ⟨hchecked, hfootprint, hmemberships, hmemberships_le, hcells, hroutes, hroutes_le⟩ := hfits
  have hm := hcleared.memberships
  have hr := hcleared.routes
  refine ⟨htables, ⟨?_, ?_, hcleared.counts.observers⟩, ?_, fun other entity' hentity' => ?_,
    fun other cells hother => ?_, ?_, ?_, ?_, ?_, fun connection view hview => ?_⟩
  · rw [register]
    dsimp only
    rw [total_insert, erase_of_none hnone, ← hcleared.counts.memberships]
    omega
  · rw [register]
    dsimp only
    rw [total_insert, erase_of_none habsent, ← hcleared.counts.routes]
    omega
  · have hsize : (graph'.register entity footprint memberships routes).entities.size =
        graph'.entities.size + 1 := by
      rw [register]
      dsimp only
      rw [ExtTreeMap.size_insert, if_neg]
      rw [contains_eq_isSome, habsent]
      exact Bool.false_ne_true
    rw [hsize, hlimits, hcleared.entities]
    cases hold : graph.entities[entity.id]? with
    | none =>
      rw [erase_of_none hold]
      exact hchecked.room hold
    | some old =>
      rw [size_erase_add_one hold]
      exact h.within.entities
  · rw [register, lookup_insert] at hentity'
    split_ifs at hentity'
    · cases hentity'
      rw [hlimits]
      exact ⟨hchecked.dependencies_le, hchecked.semantic_le⟩
    · exact hcleared.within.registration other entity' hentity'
  · rw [hfoot other] at hother
    rw [hlimits]
    split_ifs at hother
    · cases hother
      exact hfootprint.size_le
    · exact h.within.footprint other cells hother
  · have hsize := hfoot.size h.tables htables
    rw [hlimits]
    omega
  · rw [hlimits]
    exact hmemberships_le
  · rw [hlimits]
    exact hroutes_le
  · exact hcleared.within.connections
  · exact (hcleared.within.views connection view hview).congr rfl

/-! ### The shortcut -/

theorem Indexed.refresh (h : graph.Indexed)
    (hold : graph.entities[entity.id]? = some old) (hchecked : graph.Checked entity)
    (hroutes : old.routes = entity.routes) (hspan : graph.footprintSpan old = .ok span)
    (hspan' : graph.footprintSpan entity = .ok span) : (graph.refresh entity).Indexed := by
  have hlimits : (graph.refresh entity).limits = graph.limits := rfl
  have hlookup : ∀ (other : EntityId) entity', (graph.refresh entity).entities[other]? =
      some entity' → entity.id = other ∧ entity' = entity ∨ entity.id ≠ other ∧
        graph.entities[other]? = some entity' := by
    intro other entity' hother
    rw [Graph.refresh, lookup_insert] at hother
    split_ifs at hother with hne
    · exact .inl ⟨hne, (Option.some.inj hother).symm⟩
    · exact .inr ⟨hne, hother⟩
  -- a property that the old and the new registration share has the same entities
  have hhas : ∀ p : EntityRegistration → Prop, (p old ↔ p entity) →
      ∀ other, (graph.refresh entity).Has other p ↔ graph.Has other p := by
    intro p hp other
    rw [@has_insert graph (graph.refresh entity) entity rfl]
    constructor
    · rintro (⟨rfl, hentity⟩ | ⟨hother, -⟩)
      · exact ⟨old, hold, hp.mpr hentity⟩
      · exact hother
    · rintro ⟨entity', hentity', hp'⟩
      by_cases hid : other = entity.id
      · subst hid
        cases hold.symm.trans hentity'
        exact .inl ⟨rfl, hp.mp hp'⟩
      · exact .inr ⟨⟨entity', hentity', hp'⟩, hid⟩
  have hof : ∀ cells, (graph.refresh entity).FootprintOf cells = graph.FootprintOf cells :=
    fun cells => funext fun entity => propext (footprintOf_congr rfl cells entity)
  have hcells : ∀ cells, graph.FootprintOf cells old ↔ graph.FootprintOf cells entity := by
    intro cells
    unfold FootprintOf
    rw [hspan, hspan']
  refine ⟨⟨fun other entity' hentity' => ?_, fun other cells => ?_,
    fun other entity' hentity' => ?_, h.tables.cells, h.tables.cells_trim, fun other => ?_,
    fun owner other => ?_, h.tables.owners_trim,
    fun semantic other => ?_, h.tables.semantics_trim, fun other => ?_,
    fun index other => ?_⟩, ?_, ?_⟩
  · rcases hlookup other entity' hentity' with ⟨rfl, rfl⟩ | ⟨-, hentity'⟩
    · rfl
    · exact h.tables.id_eq other entity' hentity'
  · rw [hof, hhas _ (hcells cells)]
    exact h.tables.footprints other cells
  · rcases hlookup other entity' hentity' with ⟨rfl, rfl⟩ | ⟨-, hentity'⟩
    · exact ⟨rectangle span, by rw [hof]; exact ⟨span, hspan', rfl⟩⟩
    · obtain ⟨cells, hcells'⟩ := h.tables.spanned other entity' hentity'
      exact ⟨cells, by rwa [hof]⟩
  · rw [hhas _ (by rw [hroutes])]
    exact h.tables.globals other
  · rw [hhas _ (by rw [hroutes])]
    exact h.tables.owners owner other
  · rw [hhas _ (by rw [hroutes])]
    exact h.tables.semantics semantic other
  · have hwas : graph.entities[entity.id]?.any needsRefresh = needsRefresh old := by rw [hold]; rfl
    by_cases hsame : needsRefresh old = needsRefresh entity
    · rw [hhas _ (by rw [hsame]), Graph.refresh, hwas]
      dsimp only
      rw [if_pos hsame]
      exact h.tables.dynamic other
    · rw [@has_insert graph (graph.refresh entity) entity rfl, Graph.refresh, hwas]
      dsimp only
      rw [if_neg hsame, ← h.tables.dynamic]
      split_ifs with hnow
      · rw [mem_set_insert, hnow]
        tauto
      · rw [mem_set_erase]
        tauto
  · rw [hhas _ Iff.rfl]
    exact h.tables.indices index other
  · refine ⟨h.counts.memberships, ?_, h.counts.observers⟩
    have hreplace := total_replace routeCount hold entity
    have hcount : routeCount old = routeCount entity := by
      unfold routeCount
      rw [hroutes]
    have hroutes := h.counts.routes
    have htotal : total routeCount (graph.refresh entity).entities =
        total routeCount graph.entities := by
      rw [Graph.refresh]
      dsimp only
      omega
    rw [htotal]
    exact hroutes
  · refine ⟨?_, fun other entity' hentity' => ?_, h.within.footprint, h.within.cells,
      h.within.memberships, h.within.routes, h.within.connections, fun connection view hview =>
        (h.within.views connection view hview).congr rfl⟩
    · rw [Graph.refresh]
      dsimp only
      rw [ExtTreeMap.size_insert, if_pos (contains_of_lookup hold)]
      exact h.within.entities
    · rcases hlookup other entity' hentity' with ⟨rfl, rfl⟩ | ⟨-, hentity'⟩
      · exact ⟨hchecked.dependencies_le, hchecked.semantic_le⟩
      · exact h.within.registration other entity' hentity'

/-! ### Calls -/

theorem Indexed.committed (h : graph.Indexed) (tick revision : ℕ) :
    (graph.committed tick revision).Indexed :=
  ⟨⟨h.tables.id_eq, h.tables.footprints, h.tables.spanned, h.tables.cells, h.tables.cells_trim,
      h.tables.globals, h.tables.owners, h.tables.owners_trim, h.tables.semantics,
      h.tables.semantics_trim,
      h.tables.dynamic, h.tables.indices⟩,
    ⟨h.counts.memberships, h.counts.routes, h.counts.observers⟩,
    ⟨h.within.entities, h.within.registration, h.within.footprint, h.within.cells,
      h.within.memberships, h.within.routes, h.within.connections, fun connection view hview =>
        (h.within.views connection view hview).congr rfl⟩⟩

/-- A call keeps the invariant and does not panic; one that fails leaves the graph alone. -/
structure Sound (graph : Graph) (answer : Graph × Answer GraphError Unit) : Prop where
  indexed : answer.1.Indexed
  calm : answer.2 ≠ .panic
  failed : ∀ error, answer.2 = .err error → answer.1 = graph

theorem Sound.of_error (h : graph.Indexed) (error : GraphError) : Sound graph (graph, .err error) :=
  ⟨h, by simp, fun _ _ => rfl⟩

theorem Sound.of_ok (h : graph'.Indexed) : Sound graph (graph', .ok ()) :=
  ⟨h, by simp, by simp⟩

theorem Indexed.apply (h : graph.Indexed) (tick : ℕ) (change : Change) :
    Sound graph (graph.apply tick change) := by
  unfold Graph.apply
  cases graph.validateTick tick with
  | error error => exact .of_error h error
  | ok revision =>
    cases change with
    | remove id =>
      obtain ⟨graph', hremoved, hcleared⟩ := h.cleared id
      simp only [hremoved]
      exact .of_ok (Indexed.committed ⟨hcleared.tables, hcleared.counts,
        hcleared.within⟩ tick revision)
    | upsert entity =>
      dsimp only
      have hplanned := h.planned entity
      generalize graph.plan entity = planned at hplanned
      cases hplanned with
      | refused error => exact .of_error h error
      | refresh old span hold hchecked hroutes hspan hspan' =>
        exact .of_ok ((h.refresh hold hchecked hroutes hspan hspan').committed tick revision)
      | reindex footprint memberships routes hfits =>
        obtain ⟨graph', hremoved, hcleared⟩ := h.cleared entity.id
        simp only [hremoved]
        exact .of_ok ((h.reindex hcleared hfits).committed tick revision)

/-- The observers of a connection are counted in. -/
theorem Counts.observers_le (h : graph.Counts) (connection : ℕ) :
    graph.connections[connection]?.elim 0 (·.observers.length) ≤ graph.observers := by
  rw [h.observers]
  cases hview : graph.connections[connection]? with
  | none => exact Nat.zero_le _
  | some view => exact le_total (·.observers.length) hview

section
variable (h : graph.Indexed)
include h

/-- A change of the views leaves the tables of the entities alone. -/
theorem Indexed.with_views {connections : ExtTreeMap ℕ ConnectionView compare}
    {observers : ℕ} (hobservers : observers = total (·.observers.length) connections)
    (hsize : connections.size ≤ graph.limits.maxConnections)
    (hviews : ∀ (connection : ℕ) view, connections[connection]? = some view →
      graph.ViewWithin view) :
    Indexed { graph with observers, connections } :=
  ⟨⟨h.tables.id_eq, h.tables.footprints, h.tables.spanned, h.tables.cells, h.tables.cells_trim,
      h.tables.globals, h.tables.owners, h.tables.owners_trim, h.tables.semantics,
      h.tables.semantics_trim,
      h.tables.dynamic, h.tables.indices⟩,
    ⟨h.counts.memberships, h.counts.routes, hobservers⟩,
    ⟨h.within.entities, h.within.registration, h.within.footprint, h.within.cells,
      h.within.memberships, h.within.routes, hsize,
      fun connection view hview => (hviews connection view hview).congr rfl⟩⟩

theorem Indexed.setConnection (tick connection : ℕ) (view : ConnectionView)
    (authorize : ℕ → ConnectionView → Bool) :
    Sound graph (graph.setConnection tick connection view authorize) := by
  have hobservers := h.counts.observers_le connection
  unfold Graph.setConnection
  cases graph.validateTick tick with
  | error error => exact .of_error h error
  | ok revision =>
    dsimp only
    split_ifs with hroom hgrants hobserver hauthorized
    · exact .of_error h _
    · exact .of_error h _
    · exact .of_error h _
    · exact .of_error h _
    rw [checkedSub_eq_some.mpr ⟨hobservers, rfl⟩]
    refine .of_ok (Indexed.committed (h.with_views ?_ ?_ fun other view' hview' =>
      ?_) tick revision)
    · have hput := total_put (·.observers.length) graph.connections connection view
      rw [← h.counts.observers] at hput
      omega
    · rw [ExtTreeMap.size_insert]
      split_ifs with hcontains
      · exact h.within.connections
      · exact not_le.mp fun hfull => hroom ⟨hcontains, hfull⟩
    · rw [lookup_insert] at hview'
      split_ifs at hview'
      · cases hview'
        simp only [not_or, not_lt] at hgrants
        refine ⟨hgrants.1, hgrants.2.1, hgrants.2.2, fun observer hmem => ?_⟩
        have hvalid : ¬(¬graph.validPosition observer.position ∨
            ¬view.readyScenes.contains observer.sceneRevision = true) := fun hinvalid =>
          hobserver (List.any_eq_true.mpr ⟨observer, hmem, decide_eq_true hinvalid⟩)
        rw [not_or, not_not, not_not] at hvalid
        exact ⟨hvalid.1, ExtTreeSet.mem_iff_contains.mpr hvalid.2⟩
      · exact h.within.views other view' hview'

theorem Indexed.removeConnection (tick connection : ℕ) :
    Sound graph (graph.removeConnection tick connection) := by
  have hobservers := h.counts.observers_le connection
  unfold Graph.removeConnection
  cases graph.validateTick tick with
  | error error => exact .of_error h error
  | ok revision =>
    dsimp only
    rw [checkedSub_eq_some.mpr ⟨hobservers, rfl⟩]
    refine .of_ok (Indexed.committed (h.with_views ?_ ?_ fun other view' hview' =>
      ?_) tick revision)
    · rw [h.counts.observers]
      cases hview : graph.connections[connection]? with
      | none => rw [erase_of_none hview, Option.elim_none, Nat.sub_zero]
      | some view =>
        rw [total_erase (·.observers.length) hview, Option.elim_some, Nat.add_sub_cancel_left]
    · exact ExtTreeMap.size_erase_le.trans h.within.connections
    · rw [lookup_erase] at hview'
      split_ifs at hview'
      exact h.within.views other view' hview'

theorem Indexed.prepare (frame tick policyRevision : ℕ) :
    Sound graph (graph.prepare frame tick policyRevision) := by
  unfold Graph.prepare
  split_ifs
  · exact .of_error h _
  · exact .of_error h _
  · exact .of_error h _
  split
  · exact .of_error h _
  · exact .of_ok
      ⟨⟨h.tables.id_eq, h.tables.footprints, h.tables.spanned, h.tables.cells, h.tables.cells_trim,
          h.tables.globals, h.tables.owners, h.tables.owners_trim, h.tables.semantics,
          h.tables.semantics_trim, h.tables.dynamic, h.tables.indices⟩,
        ⟨h.counts.memberships, h.counts.routes, h.counts.observers⟩,
        ⟨h.within.entities, h.within.registration, h.within.footprint, h.within.cells,
          h.within.memberships, h.within.routes, h.within.connections,
          fun connection view hview => (h.within.views connection view hview).congr rfl⟩⟩

theorem Indexed.call (c : Call) : Sound graph (graph.call c) := by
  cases c with
  | apply tick change => exact h.apply tick change
  | setConnection tick connection view authorize =>
      exact h.setConnection tick connection view authorize
  | removeConnection tick connection => exact h.removeConnection tick connection
  | prepare frame tick policyRevision => exact h.prepare frame tick policyRevision

end

theorem Indexed.new {limits : Limits} (h : Graph.new limits = .ok graph) : graph.Indexed := by
  unfold Graph.new at h
  split_ifs at h
  cases h
  refine ⟨⟨?_, ?_, ?_, ?_, trim_empty, ?_, ?_, trim_empty, ?_, trim_empty, ?_, ?_⟩, ⟨?_, ?_, ?_⟩,
    ⟨?_, ?_, ?_, ?_, ?_, ?_, ?_, ?_⟩⟩
  all_goals simp [empty, Has, members, total_empty]

theorem Indexed.after (h : graph.Indexed) (calls : List Call) : (graph.after calls).Indexed :=
  run_invariant (I := Indexed) (fun _ c hgraph => (hgraph.call c).indexed) h calls

/-- The observers of all connections are within the limits of theirs. -/
theorem Indexed.observers_le (h : graph.Indexed) :
    graph.observers ≤ graph.limits.maxConnections * graph.limits.maxObservers := by
  rw [h.counts.observers]
  refine (total_le_mul fun connection view hview =>
    (h.within.views connection view hview).observers).trans ?_
  exact Nat.mul_le_mul_right _ h.within.connections

/-- An upsert that succeeds stores its registration, by the shortcut as well. -/
theorem apply_upsert {tick : ℕ} {entity : EntityRegistration}
    (h : (graph.apply tick (.upsert entity)).2 = .ok ()) :
    (graph.apply tick (.upsert entity)).1.entities[entity.id]? = some entity := by
  have hstored : ∀ entities : ExtTreeMap EntityId EntityRegistration,
      (entities.insert entity.id entity)[entity.id]? = some entity := fun entities => by
    rw [lookup_insert, if_pos rfl]
  unfold Graph.apply at h ⊢
  split at h
  · cases h
  rename_i revision _
  dsimp only at h ⊢
  split at h
  · cases h
  · cases h
  · exact hstored _
  · split at h
    · cases h
    · exact hstored _

/-- **The index invariant**, over every run of calls: no call panics, a failed call changes nothing,
and an upsert that succeeds stores its registration. -/
theorem graph_indexed {limits : Limits} (h : Graph.new limits = .ok graph) (calls : List Call) :
    (graph.after calls).Indexed ∧
      (graph.after calls).observers ≤
        (graph.after calls).limits.maxConnections * (graph.after calls).limits.maxObservers ∧
      ∀ c, ((graph.after calls).call c).2 ≠ .panic ∧
        (∀ error, ((graph.after calls).call c).2 = .err error →
          ((graph.after calls).call c).1 = graph.after calls) ∧
        ∀ tick entity, c = .apply tick (.upsert entity) → ((graph.after calls).call c).2 = .ok () →
          ((graph.after calls).call c).1.entities[entity.id]? = some entity := by
  have hindexed := (Indexed.new h).after calls
  refine ⟨hindexed, hindexed.observers_le, fun c =>
    ⟨(hindexed.call c).calm, (hindexed.call c).failed, fun tick entity hc hok => ?_⟩⟩
  subst hc
  exact apply_upsert hok

/-- A moving entity with a footprint of four cells. -/
def walker (stateVersion : ℕ) (x : ℚ) : EntityRegistration :=
  { id := ⟨7, 1⟩, bounds := ⟨⟨x, 0, 0⟩, 1⟩, cullRadius := 4,
    routes := ⟨some .dynamic, false, none, ∅⟩
    visibility := .everyone, dependencies := ∅, stateVersion, sceneRevision := 1, dormant := false }

/-- The entity enters, moves within its footprint, and moves on. -/
theorem graph_indexed_walk : Graph.new .default = .ok (empty .default) ∧
    ((empty .default).after [.apply 1 (.upsert (walker 1 0)), .apply 2 (.upsert (walker 2 1)),
      .apply 3 (.upsert (walker 3 64))]).Indexed ∧
    ((empty .default).after [.apply 1 (.upsert (walker 1 0)), .apply 2 (.upsert (walker 2 1)),
      .apply 3 (.upsert (walker 3 64))]).memberships = 4 := by
  have hnew : Graph.new .default = .ok (empty .default) := by
    rw [Graph.new, if_neg (by decide +kernel)]
  exact ⟨hnew, (graph_indexed hnew _).1, by decide +kernel⟩

end Net.Interest.Graph
