import Discordium.Lib.Window
import Discordium.Lib.Fallible
import Discordium.Net.Commands.Inbox
import Discordium.Net.Replication.Groups.Assembler

/-!
# Net — Prediction — Types

What predicted groups are made of, as `prediction/history.rs` has it: dependency samples, the inputs
a tick is replayed with, the game's model, the limits, and the bytes that are charged for what is
kept.  Equality of states, commands and dependencies is the game's own (`BEq`); sizes of types are
those of the target (`PredictionLayout`).
-/

namespace Net.Prediction
open Lib
open Std (ExtTreeMap)

inductive DependencyValue (D : Type) where
  | known (value : D)
  | explicitlyAbsent
  | unavailable
  deriving BEq, ReflBEq, LawfulBEq

structure DependencyRecord (D : Type) where
  scope : ScopeIdentity
  sceneRevision : ℕ
  version : ℕ
  value : DependencyValue D
  deriving BEq, ReflBEq, LawfulBEq

structure DependencyFrame (D : Type) where
  records : ExtTreeMap EntityId (DependencyRecord D)

/-- Equal records under equal entities, in order. -/
instance {D : Type} [BEq D] : BEq (DependencyFrame D) :=
  ⟨fun a b => a.records.toList == b.records.toList⟩

/-- Missing is unavailable, never evidence that an entity was removed. -/
def DependencyFrame.value {D : Type} (frame : DependencyFrame D) (entity : EntityId) :
    Option (DependencyValue D) :=
  frame.records[entity]?.map (·.value)

structure PredictionBinding where
  owner : OwnerStream
  sceneRevision : ℕ
  teleportSegment : ℕ
  deriving DecidableEq

/-- The set of scopes is the list of them in order. -/
structure PredictionIdentity where
  binding : PredictionBinding
  group : ℕ
  groupRevision : ℕ
  scopes : List ScopeIdentity
  deriving DecidableEq

structure DecodedPrediction (S D : Type) where
  state : S
  dependencies : DependencyFrame D

/-- The transition recorded after a checkpoint; a checkpoint itself has none. -/
inductive ReplayInput (C : Type) where
  | command (command : C)
  | substitute
  deriving BEq

/-- The command of a transition. -/
def ReplayInput.command? {C : Type} : ReplayInput C → Option C
  | .command c => some c
  | .substitute => none

inductive RecoveryReason where
  | identityChanged
  | checkpointAhead
  | missingHistory
  | missingDependency
  | replayBudget
  | memoryBudget
  | invalidState
  | disclosureRevoked
  deriving DecidableEq

inductive PredictionError where
  | invalidConfiguration
  | invalidIdentity
  | invalidState
  | invalidCommand
  | invalidDependency
  | equivocation
  | wrongTick
  | alreadyInitialized
  | unknownGroup
  | noFrame
  | nonMonotonicFrame
  | staleDependency
  | capacity
  | resyncRequired (reason : RecoveryReason)
  deriving DecidableEq

/-- `PublishedGroup` as a predictor sees it.  It has no public constructor: its manifest is one that
the assembler let through, in order and with no entity index twice. -/
structure PublishedProof (W : Type) where
  publication : GroupPublication
  endTick : ℕ
  manifest : List ScopeIdentity
  states : List (FullState W)
  sorted : manifest.Pairwise fun a b => a.path < b.path
  indices : (manifest.map fun scope => scope.entity.index).Nodup

/-- `PredictionModel`: the game behind the manager.  A step that fails leaves nothing behind. -/
structure PredictionModel (W S C D : Type) where
  decodeGroup : PublishedProof W → PredictionBinding →
    Except PredictionError (DecodedPrediction S D)
  validState : S → Bool
  commandIdentity : C → OwnerStream × ℕ × ℕ
  validCommand : C → Bool
  requiredDependencies : S → Option C → List EntityId
  step : S → ℕ → C → DependencyFrame D → Except PredictionError (S × Finset ActionKey)
  stepSubstitute : S → ℕ → DependencyFrame D → Except PredictionError (S × Finset ActionKey)

structure PredictionLimits where
  groups : ℕ
  entitiesPerGroup : ℕ
  totalEntities : ℕ
  historyTicks : ℕ
  checkpointBytes : ℕ
  commandBytes : ℕ
  dependencyEntities : ℕ
  dependencyBytes : ℕ
  eventsPerTick : ℕ
  historyBytes : ℕ
  replayTicksPerFrame : ℕ
  replayEntityStepsPerFrame : ℕ
  predictionTicksPerFrame : ℕ
  predictionEntityStepsPerFrame : ℕ

/-- `PredictionLimits::default()`. -/
def PredictionLimits.default : PredictionLimits where
  groups := 8
  entitiesPerGroup := 32
  totalEntities := 128
  historyTicks := 256
  checkpointBytes := 16384
  commandBytes := 2048
  dependencyEntities := 128
  dependencyBytes := 16384
  eventsPerTick := 32
  historyBytes := 64 * 1024 * 1024
  replayTicksPerFrame := 32
  replayEntityStepsPerFrame := 2048
  predictionTicksPerFrame := 32
  predictionEntityStepsPerFrame := 2048

structure PredictionWork where
  replayTicks : ℕ := 0
  replayEntitySteps : ℕ := 0
  predictedTicks : ℕ := 0
  predictedEntitySteps : ℕ := 0

structure EventChanges where
  started : Finset ActionKey := ∅
  canceled : Finset ActionKey := ∅
  deriving DecidableEq

structure AuthoritativeRebase where
  tick : ℕ
  events : EventChanges
  deriving DecidableEq

inductive Correction where
  | stale
  | equal
  | replaced
  | replayed (first : ℕ) (through : ℕ) (events : EventChanges)
  deriving DecidableEq

/-! ### What is charged -/

/-- `size_of` of what the manager keeps. -/
class PredictionLayout (S C D : Type) where
  state : ℕ
  command : ℕ
  historyFrame : ℕ
  groupHistory : ℕ
  manager : ℕ
  dependencyFrame : ℕ
  dependencyRecord : ℕ
  entityId : ℕ
  scopeIdentity : ℕ
  actionKey : ℕ
  groupId : ℕ
  fenceGroup : ℕ
  fenceMember : ℕ

/-- `ENTRY_OVERHEAD`. -/
def entryOverhead : ℕ := 128

/-- An overflow is reported as a lack of room. -/
def orCapacity {α : Type} : Option α → Except PredictionError α
  | some a => .ok a
  | none => .error .capacity

section bytes
variable (S C D : Type) [Payload S] [Payload C] [Payload D] [PredictionLayout S C D]

/-- `payload_bytes` of a state. -/
def stateBytes (state : S) : Except PredictionError ℕ :=
  orCapacity (checkedAdd 64 (PredictionLayout.state S C D) (Payload.retainedBytes state))

/-- `payload_bytes` of a command. -/
def commandBytes (command : C) : Except PredictionError ℕ :=
  orCapacity (checkedAdd 64 (PredictionLayout.command S C D) (Payload.retainedBytes command))

/-- What a dependency owns besides its record. -/
def DependencyValue.retained {D : Type} [Payload D] : DependencyValue D → ℕ
  | .known value => Payload.retainedBytes value
  | _ => 0

/-- The bytes after some of the records. -/
def recordBytes : ℕ → List (DependencyRecord D) → Option ℕ
  | bytes, [] => some bytes
  | bytes, record :: records =>
    ((checkedAdd 64 bytes (entryOverhead + PredictionLayout.entityId S C D +
        PredictionLayout.dependencyRecord S C D)).bind (checkedAdd 64 · record.value.retained)).bind
      fun bytes => recordBytes bytes records

def dependencyBytes (frame : DependencyFrame D) : Except PredictionError ℕ :=
  orCapacity (recordBytes S C D (PredictionLayout.dependencyFrame S C D) (values frame.records))

def eventBytes (events : Finset ActionKey) : Except PredictionError ℕ :=
  orCapacity (checkedMul 64 events.card (entryOverhead + PredictionLayout.actionKey S C D))

variable {S C D}

/-- What the command of a transition owns. -/
def inputRetained (input : Option (ReplayInput C)) : ℕ :=
  ((input.bind ReplayInput.command?).map Payload.retainedBytes).getD 0

def framePartsBytes (state : S) (input : Option (ReplayInput C)) (dependencies : DependencyFrame D)
    (events : Finset ActionKey) : Except PredictionError ℕ :=
  orCapacity <|
    (checkedAdd 64 (PredictionLayout.historyFrame S C D + entryOverhead)
        (Payload.retainedBytes state)).bind fun n =>
      (checkedAdd 64 n (inputRetained input)).bind fun n =>
        ((dependencyBytes S C D dependencies).toOption.bind (checkedAdd 64 n ·)).bind fun n =>
          (eventBytes S C D events).toOption.bind (checkedAdd 64 n ·)

end bytes

/-- `step_input`. -/
def stepInput {W S C D : Type} (model : PredictionModel W S C D) (state : S) (tick : ℕ) :
    ReplayInput C → DependencyFrame D → Except PredictionError (S × Finset ActionKey)
  | .command c, dependencies => model.step state tick c dependencies
  | .substitute, dependencies => model.stepSubstitute state tick dependencies

/-- `reason`: what a group needs recovery from. -/
def reason : PredictionError → RecoveryReason → RecoveryReason
  | .resyncRequired reason, _ => reason
  | .capacity, _ => .memoryBudget
  | _, fallback => fallback

end Net.Prediction
