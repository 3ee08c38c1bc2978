import Discordium.Net.Types

/-!
# Net — Interest — Model

The registrations, views and limits of the replication interest graph, as `interest/model.rs` has
them.  Coordinates, radii and sizes are exact rationals, so every one of them is finite.
Connections, semantic groups, scenes and revisions are natural numbers.
-/

namespace Net.Interest
open Lib
open Std (ExtTreeMap ExtTreeSet)

/-- A world position; the ground plane is spanned by `x` and `z`. -/
structure Position where
  x : ℚ
  y : ℚ
  z : ℚ
  deriving DecidableEq

structure Bounds where
  center : Position
  radius : ℚ
  deriving DecidableEq

inductive SpatialRoute where
  | static
  | dynamic
  | dormancyDriven
  deriving DecidableEq

structure Routes where
  spatial : Option SpatialRoute
  global : Bool
  owner : Option ℕ
  semantic : ExtTreeSet ℕ
  deriving DecidableEq

/-- Hard access restrictions, independent of the routes. -/
inductive Visibility where
  /-- `Public`. -/
  | everyone
  | owner (connection : ℕ)
  | semantic (group : ℕ)
  | never

structure EntityRegistration where
  id : EntityId
  bounds : Bounds
  cullRadius : ℚ
  routes : Routes
  visibility : Visibility
  dependencies : ExtTreeSet EntityId
  stateVersion : ℕ
  sceneRevision : ℕ
  dormant : Bool

structure ObserverGrant where
  position : Position
  sceneRevision : ℕ

/-- A server-approved view of a connection. -/
structure ConnectionView where
  observers : List ObserverGrant
  semanticGrants : ExtTreeSet ℕ
  readyScenes : ExtTreeSet ℕ

structure RepresentationGrant where
  schemaId : ℕ
  revision : ℕ
  fields : ℕ
  predictionAllowed : Bool
  deriving DecidableEq

/-- The disclosure policy of the game, at one revision. -/
structure DisclosurePolicy where
  revision : ℕ
  representation : ℕ → EntityRegistration → Option RepresentationGrant
  permitsDependency : ℕ → EntityId → EntityId → Bool

/-- `Limits`; the counts bound what the graph and one gathering may hold. -/
structure Limits where
  cellSize : ℚ
  leaveMargin : ℚ
  prefetch : ℚ
  maxCoordinate : ℚ
  maxEntities : ℕ
  maxCellsPerEntity : ℕ
  maxCells : ℕ
  maxMemberships : ℕ
  maxRouteMemberships : ℕ
  maxSemanticRoutesPerEntity : ℕ
  maxConnections : ℕ
  maxObservers : ℕ
  maxSemanticGrants : ℕ
  maxReadyScenes : ℕ
  maxCandidates : ℕ
  maxCandidateVisits : ℕ
  maxRequired : ℕ
  maxDependencyEdges : ℕ

/-- `Limits::default()`. -/
def Limits.default : Limits where
  cellSize := 32
  leaveMargin := 10
  prefetch := 8
  maxCoordinate := 1000000000
  maxEntities := 100000
  maxCellsPerEntity := 256
  maxCells := 65536
  maxMemberships := 2000000
  maxRouteMemberships := 400000
  maxSemanticRoutesPerEntity := 8
  maxConnections := 1024
  maxObservers := 2
  maxSemanticGrants := 16
  maxReadyScenes := 64
  maxCandidates := 4096
  maxCandidateVisits := 32768
  maxRequired := 128
  maxDependencyEdges := 16384

/-- A cell of the influence grid. -/
structure Cell where
  x : ℤ
  z : ℤ
  deriving DecidableEq

namespace Cell

def path (cell : Cell) : List ℤ := [cell.x, cell.z]

theorem path_injective : Function.Injective path := by
  rintro ⟨⟩ ⟨⟩ h
  simpa [path] using h

instance : Ord Cell := ⟨compareOn path⟩

instance : Std.TransOrd Cell := inferInstanceAs (Std.TransCmp (compareOn path))

instance : Std.LawfulEqOrd Cell := lawfulEqCmp_compareOn path_injective

end Cell

/-! ### Reasons -/

/-- `EligibilityReasons`: a set of five flags in a byte. -/
structure EligibilityReasons where
  bits : BitVec 8
  deriving DecidableEq

namespace EligibilityReasons

def spatial : EligibilityReasons := ⟨1⟩
def global : EligibilityReasons := ⟨2⟩
def owner : EligibilityReasons := ⟨4⟩
def semantic : EligibilityReasons := ⟨8⟩
def required : EligibilityReasons := ⟨16⟩

def contains (reasons other : EligibilityReasons) : Bool := reasons.bits &&& other.bits = other.bits

def insert (reasons other : EligibilityReasons) : EligibilityReasons :=
  ⟨reasons.bits ||| other.bits⟩

def withoutSpatial (reasons : EligibilityReasons) : EligibilityReasons :=
  ⟨reasons.bits &&& ~~~spatial.bits⟩

def isEmpty (reasons : EligibilityReasons) : Bool := reasons.bits = 0

end EligibilityReasons
end Net.Interest
