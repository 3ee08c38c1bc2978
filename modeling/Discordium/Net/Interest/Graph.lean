import Discordium.Lib.Fallible
import Discordium.Lib.Index
import Discordium.Lib.Machine
import Discordium.Net.Interest.Model

/-!
# Net — Interest — Graph

The persistent interest index of `interest/graph.rs`.  An upsert is checked in full before any table
changes: `plan` is what the checks come to, and the tables are then refreshed or re-indexed.
Subtractions of counters that must not fall below zero, and the unwrapped look-ups, panic when they
fail; the answer `panic` stands for that.
-/

namespace Net.Interest
open Lib
open Std (ExtTreeMap ExtTreeSet)

inductive GraphError where
  | invalidConfiguration
  | invalidBounds
  | invalidIdentity
  | generationConflict
  | regressedStateVersion
  | nonMonotonicTick
  | nonMonotonicFrame
  | nonMonotonicPolicy
  | revisionExhausted
  | unauthorizedView
  | invalidObserver
  | limit (what : String)

inductive Change where
  | upsert (entity : EntityRegistration)
  | remove (id : EntityId)

structure Graph where
  limits : Limits
  entities : ExtTreeMap EntityId EntityRegistration
  indices : ExtTreeMap ℕ EntityId
  dynamic : ExtTreeSet EntityId
  cells : ExtTreeMap Cell (ExtTreeSet EntityId)
  footprints : ExtTreeMap EntityId (ExtTreeSet Cell)
  globals : ExtTreeSet EntityId
  owners : ExtTreeMap ℕ (ExtTreeSet EntityId)
  semantics : ExtTreeMap ℕ (ExtTreeSet EntityId)
  connections : ExtTreeMap ℕ ConnectionView
  memberships : ℕ
  routeMemberships : ℕ
  observers : ℕ
  worldRevision : ℕ
  lastTick : Option ℕ
  lastFrame : Option ℕ
  lastPolicy : Option ℕ
  prepareCalls : ℕ

/-- The limits a graph can be built with; `(i64::MAX / 4) as f64` is 2⁶¹. -/
def Limits.invalid (limits : Limits) : Prop :=
  limits.cellSize ≤ 0 ∨ limits.maxCoordinate ≤ 0 ∨ limits.leaveMargin < 0 ∨ limits.prefetch < 0 ∨
    limits.maxCoordinate < limits.leaveMargin + limits.prefetch ∨
    2 ^ 61 ≤ 2 * limits.maxCoordinate / limits.cellSize ∨
    0 ∈ [limits.maxEntities, limits.maxCellsPerEntity, limits.maxCells, limits.maxMemberships,
      limits.maxRouteMemberships, limits.maxSemanticRoutesPerEntity, limits.maxConnections,
      limits.maxObservers, limits.maxSemanticGrants, limits.maxReadyScenes, limits.maxCandidates,
      limits.maxCandidateVisits, limits.maxRequired, limits.maxDependencyEdges] ∨
    limits.maxMemberships < limits.maxCellsPerEntity ∨ limits.maxCandidates < limits.maxRequired ∨
    limits.maxCandidateVisits < limits.maxCandidates

instance (limits : Limits) : Decidable limits.invalid := by
  unfold Limits.invalid
  infer_instance

namespace Graph

/-- A graph with nothing in it. -/
def empty (limits : Limits) : Graph :=
  { limits, entities := ∅, indices := ∅, dynamic := ∅, cells := ∅, footprints := ∅, globals := ∅
    owners := ∅, semantics := ∅, connections := ∅, memberships := 0, routeMemberships := 0
    observers := 0, worldRevision := 0, lastTick := none, lastFrame := none, lastPolicy := none
    prepareCalls := 0 }

def new (limits : Limits) : Except GraphError Graph :=
  if limits.invalid then .error .invalidConfiguration else .ok (empty limits)

def validateTick (graph : Graph) (tick : ℕ) : Except GraphError ℕ :=
  if graph.lastTick.any (tick < ·) then .error .nonMonotonicTick
  else obtainOr .revisionExhausted (checkedAdd 64 graph.worldRevision 1)

def committed (graph : Graph) (tick revision : ℕ) : Graph :=
  { graph with lastTick := some tick, worldRevision := revision }

/-! ### Footprints -/

def validPosition (graph : Graph) (position : Position) : Prop :=
  |position.x| ≤ graph.limits.maxCoordinate ∧ |position.y| ≤ graph.limits.maxCoordinate ∧
    |position.z| ≤ graph.limits.maxCoordinate

instance (graph : Graph) (position : Position) : Decidable (graph.validPosition position) :=
  inferInstanceAs (Decidable (_ ∧ _))

/-- `as i64`, which saturates. -/
def toI64 (n : ℤ) : ℤ := max (-2 ^ 63) (min n (2 ^ 63 - 1))

/-- The cell of a ground position. -/
def cell (graph : Graph) (x z : ℚ) : Cell :=
  ⟨toI64 ⌊x / graph.limits.cellSize⌋, toI64 ⌊z / graph.limits.cellSize⌋⟩

/-- The farthest an observer can be and still reach the entity. -/
def influence (graph : Graph) (entity : EntityRegistration) : ℚ :=
  entity.bounds.radius + entity.cullRadius + graph.limits.leaveMargin + graph.limits.prefetch

def footprintSpan (graph : Graph) (entity : EntityRegistration) :
    Except GraphError (Option (Cell × Cell)) :=
  if ¬graph.validPosition entity.bounds.center ∨ entity.bounds.radius < 0 ∨
    entity.cullRadius < 0 then
    .error .invalidBounds
  else
    let radius := graph.influence entity
    if graph.limits.maxCoordinate < radius then .error .invalidBounds
    else if entity.routes.spatial.isNone then .ok none
    else
      let center := entity.bounds.center
      let low := graph.cell (center.x - radius) (center.z - radius)
      let high := graph.cell (center.x + radius) (center.z + radius)
      if graph.limits.maxCellsPerEntity < (high.x - low.x + 1).toNat *
        (high.z - low.z + 1).toNat then
        .error (.limit "cells per entity")
      else .ok (some (low, high))

/-- The integers from `low` to `high`. -/
def intRange (low high : ℤ) : List ℤ :=
  (List.range (high - low + 1).toNat).map fun n : ℕ => low + (n : ℤ)

/-- The cells between two corners. -/
def cellsBetween (low high : Cell) : List Cell :=
  (intRange low.x high.x).flatMap fun x => (intRange low.z high.z).map fun z => ⟨x, z⟩

/-- The cells of a span. -/
def rectangle (span : Option (Cell × Cell)) : ExtTreeSet Cell :=
  span.elim ∅ fun corners => ExtTreeSet.ofList (cellsBetween corners.1 corners.2)

def needsRefresh (entity : EntityRegistration) : Bool :=
  entity.routes.spatial = some .dynamic || (entity.routes.spatial = some .dormancyDriven &&
    !entity.dormant)

def routeCount (entity : EntityRegistration) : ℕ :=
  entity.routes.global.toNat + entity.routes.owner.isSome.toNat + entity.routes.semantic.size

/-! ### Changes -/

/-- `remove_indices`; nothing where a counter would fall below zero. -/
def removeIndices (graph : Graph) (id : EntityId) : Option Graph :=
  match graph.entities[id]? with
  | none => some graph
  | some entity =>
    let footprint := graph.footprints[id]?.getD ∅
    (checkedSub graph.memberships footprint.size).bind fun memberships =>
      (checkedSub graph.routeMemberships (routeCount entity)).map fun routeMemberships =>
        { graph with
          entities := graph.entities.erase id
          indices := graph.indices.erase id.index
          dynamic := graph.dynamic.erase id
          footprints := graph.footprints.erase id
          memberships
          cells := footprint.toList.foldl (fun cells cell => removeMember cells cell id) graph.cells
          routeMemberships
          globals := graph.globals.erase id
          owners := entity.routes.owner.elim graph.owners fun owner =>
            removeMember graph.owners owner id
          semantics := entity.routes.semantic.toList.foldl
            (fun semantics semantic => removeMember semantics semantic id) graph.semantics }

/-- Why a check stops: an error, or a panic. -/
inductive Stop where
  | error (error : GraphError)
  | panic

/-- What a checked upsert comes to. -/
inductive Plan where
  /-- The footprint and the routes stay as they are. -/
  | refresh
  | reindex (footprint : ExtTreeSet Cell) (memberships routes : ℕ)

/-- Errors of a part, as those of the check. -/
def stopping {α : Type} : Except GraphError α → Except Stop α
  | .error error => .error (.error error)
  | .ok value => .ok value

/-- The identity, version and size checks of an upsert. -/
def validateEntity (graph : Graph) (entity : EntityRegistration) : Except GraphError Unit :=
  let old := graph.entities[entity.id]?
  if entity.id.generation = 0 ∨ entity.stateVersion = 0 ∨
      entity.dependencies.toList.any (·.generation = 0) then .error .invalidIdentity
  else if graph.indices[entity.id.index]?.any (· ≠ entity.id) then .error .generationConflict
  else if old.any (entity.stateVersion < ·.stateVersion) then .error .regressedStateVersion
  else if old.isNone ∧ graph.limits.maxEntities ≤ graph.entities.size
    then .error (.limit "entities")
  else if graph.limits.maxRequired < entity.dependencies.size
    then .error (.limit "declared dependencies")
  else if graph.limits.maxSemanticRoutesPerEntity < entity.routes.semantic.size then
    .error (.limit "semantic routes")
  else .ok ()

def sameRoutes (old : Option EntityRegistration) (entity : EntityRegistration) : Bool :=
  old.any (·.routes = entity.routes)

def sameGeometry (old : Option EntityRegistration) (entity : EntityRegistration) : Bool :=
  old.any fun old => old.bounds = entity.bounds && old.cullRadius = entity.cullRadius

/-- `same_footprint`, given the span of the new registration where it was computed. -/
def sameFootprint (graph : Graph) (entity : EntityRegistration)
    (span : Option (Option (Cell × Cell))) : Except Stop Bool :=
  let old := graph.entities[entity.id]?
  if !sameRoutes old entity then .ok false
  else if sameGeometry old entity then .ok true
  else
    (obtainOr .panic old).bind fun old =>
      (stopping (graph.footprintSpan old)).bind fun oldSpan =>
        (obtainOr .panic span).map fun span => oldSpan = span

/-- The cells of the old footprint that a re-indexing leaves empty. -/
def freed (graph : Graph) (id : EntityId) (footprint : ExtTreeSet Cell) : ℕ :=
  graph.footprints[id]?.elim 0 fun cells =>
    (cells.toList.filter fun cell =>
      !footprint.contains cell && graph.cells[cell]?.any (·.size = 1)).length

/-- The limits of the tables, once the footprint is known. -/
def reindexing (graph : Graph) (entity : EntityRegistration) (footprint : ExtTreeSet Cell) :
    Except Stop Plan :=
  let oldCount := graph.footprints[entity.id]?.elim 0 (·.size)
  (obtainOr .panic (checkedSub graph.memberships oldCount)).bind fun others =>
    let memberships := others + footprint.size
    let allocated := (footprint.toList.filter fun cell => !graph.cells.contains cell).length
    (require (.error (.limit "grid memberships"))
      (memberships ≤ graph.limits.maxMemberships)).bind fun _ =>
      (obtainOr .panic (checkedSub graph.cells.size (graph.freed entity.id footprint))).bind
        fun kept =>
        (require (.error (.limit "grid cells"))
          (kept + allocated ≤ graph.limits.maxCells)).bind fun _ =>
          (obtainOr .panic (checkedSub graph.routeMemberships
              (graph.entities[entity.id]?.elim 0 routeCount))).bind fun others =>
            let routes := others + routeCount entity
            (require (.error (.limit "route memberships"))
              (routes ≤ graph.limits.maxRouteMemberships)).map
              fun _ => .reindex footprint memberships routes

/-- All checks of an upsert. -/
def plan (graph : Graph) (entity : EntityRegistration) : Except Stop Plan :=
  let old := graph.entities[entity.id]?
  (stopping (graph.validateEntity entity)).bind fun _ =>
    (if sameRoutes old entity ∧ sameGeometry old entity then .ok none
      else (stopping (graph.footprintSpan entity)).map some).bind fun span =>
      (graph.sameFootprint entity span).bind fun same =>
        if same then .ok .refresh else graph.reindexing entity (rectangle (span.getD none))

/-- The shortcut: only the registration and the refresh list change. -/
def refresh (graph : Graph) (entity : EntityRegistration) : Graph :=
  let was := graph.entities[entity.id]?.any needsRefresh
  { graph with
    dynamic :=
      if was = needsRefresh entity then graph.dynamic
      else if needsRefresh entity then graph.dynamic.insert entity.id
      else graph.dynamic.erase entity.id
    entities := graph.entities.insert entity.id entity }

/-- The tables with a new registration, given those without the entity. -/
def register (graph : Graph) (entity : EntityRegistration) (footprint : ExtTreeSet Cell)
    (memberships routes : ℕ) : Graph :=
  { graph with
    cells := footprint.toList.foldl (fun cells cell => addMember cells cell entity.id) graph.cells
    globals := if entity.routes.global then graph.globals.insert entity.id else graph.globals
    owners := entity.routes.owner.elim graph.owners fun owner =>
      addMember graph.owners owner entity.id
    semantics := entity.routes.semantic.toList.foldl
      (fun semantics semantic => addMember semantics semantic entity.id) graph.semantics
    dynamic := if needsRefresh entity then graph.dynamic.insert entity.id else graph.dynamic
    indices := graph.indices.insert entity.id.index entity.id
    footprints := graph.footprints.insert entity.id footprint
    entities := graph.entities.insert entity.id entity
    memberships
    routeMemberships := routes }

def apply (graph : Graph) (tick : ℕ) (change : Change) : Graph × Answer GraphError Unit :=
  match graph.validateTick tick with
  | .error error => (graph, .err error)
  | .ok revision =>
    match change with
    | .remove id =>
      match graph.removeIndices id with
      | none => (graph, .panic)
      | some graph => (graph.committed tick revision, .ok ())
    | .upsert entity =>
      match graph.plan entity with
      | .error (.error error) => (graph, .err error)
      | .error .panic => (graph, .panic)
      | .ok .refresh => ((graph.refresh entity).committed tick revision, .ok ())
      | .ok (.reindex footprint memberships routes) =>
        match graph.removeIndices entity.id with
        | none => (graph, .panic)
        | some graph =>
          ((graph.register entity footprint memberships routes).committed tick revision, .ok ())

/-! ### Connections -/

def setConnection (graph : Graph) (tick connection : ℕ) (view : ConnectionView)
    (authorize : ℕ → ConnectionView → Bool) : Graph × Answer GraphError Unit :=
  match graph.validateTick tick with
  | .error error => (graph, .err error)
  | .ok revision =>
    if ¬graph.connections.contains connection ∧ graph.limits.maxConnections ≤
      graph.connections.size then
      (graph, .err (.limit "connections"))
    else if graph.limits.maxObservers < view.observers.length ∨
        graph.limits.maxSemanticGrants < view.semanticGrants.size ∨
        graph.limits.maxReadyScenes < view.readyScenes.size
          then (graph, .err (.limit "connection grants"))
    else if view.observers.any fun observer =>
        ¬graph.validPosition observer.position ∨
          ¬view.readyScenes.contains observer.sceneRevision then
      (graph, .err .invalidObserver)
    else if !authorize connection view then (graph, .err .unauthorizedView)
    else
      match checkedSub graph.observers
          (graph.connections[connection]?.elim 0 (·.observers.length)) with
      | none => (graph, .panic)
      | some others =>
        ({ graph with
            observers := others + view.observers.length
            connections :=
              graph.connections.insert connection view }.committed tick revision, .ok ())

def removeConnection (graph : Graph) (tick connection : ℕ) : Graph × Answer GraphError Unit :=
  match graph.validateTick tick with
  | .error error => (graph, .err error)
  | .ok revision =>
    match checkedSub graph.observers
        (graph.connections[connection]?.elim 0 (·.observers.length)) with
    | none => (graph, .panic)
    | some observers =>
      ({ graph with observers, connections := graph.connections.erase connection }.committed
        tick revision, .ok ())

/-- `prepare`: the graph it freezes. -/
def prepare (graph : Graph) (frame tick policyRevision : ℕ) : Graph × Answer GraphError Unit :=
  if graph.lastFrame.any (frame ≤ ·) then (graph, .err .nonMonotonicFrame)
  else if graph.lastTick.any (tick < ·) then (graph, .err .nonMonotonicTick)
  else if graph.lastPolicy.any (policyRevision < ·) then (graph, .err .nonMonotonicPolicy)
  else
    match checkedAdd 64 graph.prepareCalls 1 with
    | none => (graph, .err .revisionExhausted)
    | some prepareCalls =>
      ({ graph with
          lastFrame := some frame, lastTick := some tick, lastPolicy := some policyRevision
          prepareCalls }, .ok ())

/-! ### Calls -/

inductive Call where
  | apply (tick : ℕ) (change : Change)
  | setConnection (tick connection : ℕ) (view : ConnectionView)
      (authorize : ℕ → ConnectionView → Bool)
  | removeConnection (tick connection : ℕ)
  | prepare (frame tick policyRevision : ℕ)

def call (graph : Graph) : Call → Graph × Answer GraphError Unit
  | .apply tick change => graph.apply tick change
  | .setConnection tick connection view authorize =>
      graph.setConnection tick connection view authorize
  | .removeConnection tick connection => graph.removeConnection tick connection
  | .prepare frame tick policyRevision => graph.prepare frame tick policyRevision

/-- The graph after a run of calls. -/
def after (graph : Graph) (calls : List Call) : Graph :=
  run (fun graph c => (graph.call c).1) graph calls

end Graph
end Net.Interest
