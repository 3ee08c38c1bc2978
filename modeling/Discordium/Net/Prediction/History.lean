import Discordium.Net.Prediction.Types

/-!
# Net — Prediction — History

The history of one predicted group and what the calls do to it, as `prediction/manager.rs` has it: a
predicted tick, a replaced dependency sample, and a reconciliation with an authoritative checkpoint.
A call on a group ends with a new history or halts: with an error, with an error that leaves the
group in recovery, or with the panic of an `expect` or a subtraction.  The work it charges is kept
either way.
-/

namespace Net.Prediction
open Lib
open Std (ExtTreeMap)

structure HistoryFrame (S C D : Type) where
  state : S
  input : Option (ReplayInput C)
  dependencies : DependencyFrame D
  events : Finset ActionKey
  bytes : ℕ

structure GroupHistory (S C D : Type) where
  identity : PredictionIdentity
  frames : ExtTreeMap ℕ (HistoryFrame S C D)
  lastSnapshot : ℕ
  lastCheckpoint : ℕ
  lastSequence : Option ℕ
  dirtyFrom : Option ℕ
  recovery : Option RecoveryReason
  bytes : ℕ

/-- The newest revision, snapshot and tick of a group that was replaced. -/
structure GroupMark where
  revision : ℕ
  snapshot : ℕ
  tick : ℕ

/-- The newest scope of an entity index that was replaced, with the binding it last owned. -/
structure MemberMark where
  scope : ScopeIdentity
  scene : ℕ
  owner : Option PredictionBinding

structure TopologyFences where
  groups : ExtTreeMap ℕ GroupMark
  members : ExtTreeMap ℕ MemberMark

structure PredictionManager (S C D : Type) where
  connection : ℕ
  limits : PredictionLimits
  groups : ExtTreeMap ℕ (GroupHistory S C D)
  bytes : ℕ
  entities : ℕ
  frame : Option ℕ
  work : PredictionWork
  topologyFences : TopologyFences

/-- What stops a call on a group. -/
inductive Halt where
  | error (error : PredictionError)
  /-- The group needs a resynchronization. -/
  | recover (reason : RecoveryReason)
  | panic

namespace PredictionManager
variable {W S C D : Type}

/-! ### Shared checks -/

def reserve (m : PredictionManager S C D) (bytes : ℕ) : Except PredictionError Unit :=
  if (checkedAdd 64 m.bytes bytes).any (· ≤ m.limits.historyBytes) then .ok () else .error .capacity

/-- `event_scratch`; nothing on overflow. -/
def eventScratch [PredictionLayout S C D] (m : PredictionManager S C D) (copies : ℕ) : Option ℕ :=
  (checkedMul 64 m.limits.eventsPerTick (PredictionLayout.actionKey S C D + entryOverhead)).bind
    (checkedMul 64 · copies)

def validEvents (m : PredictionManager S C D) (connection : ℕ) (events : Finset ActionKey) : Bool :=
  events.card ≤ m.limits.eventsPerTick ∧
    ∀ event ∈ events, event.connection = connection ∧ event.stream ≠ 0 ∧ event.command ≠ 0

section payload
variable [Payload S] [Payload C] [Payload D] [PredictionLayout S C D]

def validateState (m : PredictionManager S C D) (state : S) (model : PredictionModel W S C D) :
    Except PredictionError Unit :=
  if !model.validState state then .error .invalidState
  else (stateBytes S C D state).bind fun bytes =>
    if m.limits.checkpointBytes < bytes then .error .invalidState else .ok ()

/-- The record is a well-formed sample of its entity on the connection and the scene. -/
def validRecord (connection : ℕ) (binding : PredictionBinding) (entity : EntityId)
    (record : DependencyRecord D) : Bool :=
  record.scope.entity = entity ∧ record.scope.connection = connection ∧ entity.generation ≠ 0 ∧
    record.scope.scope ≠ 0 ∧ record.scope.representation ≠ 0 ∧ record.version ≠ 0 ∧
    record.sceneRevision = binding.sceneRevision

def validateDependencyRecords (m : PredictionManager S C D) (binding : PredictionBinding)
    (frame : DependencyFrame D) : Except PredictionError Unit :=
  if m.limits.dependencyEntities < frame.records.size then .error .capacity
  else (dependencyBytes S C D frame).bind fun bytes =>
    if m.limits.dependencyBytes < bytes then .error .capacity
    else if frame.records.toList.all fun (entity, record) =>
      validRecord m.connection binding entity record
    then .ok ()
    else .error .invalidDependency

/-- Every required entity is named once and has a sample. -/
def checkRequired (frame : DependencyFrame D) :
    Finset EntityId → List EntityId → Except PredictionError Unit
  | _, [] => .ok ()
  | seen, entity :: entities =>
    if entity ∈ seen then .error .invalidDependency
    else match frame.value entity with
      | none | some .unavailable => .error (.resyncRequired .missingDependency)
      | some _ => checkRequired frame (insert entity seen) entities

def validateDependencies (m : PredictionManager S C D) (binding : PredictionBinding) (state : S)
    (command : Option C) (frame : DependencyFrame D) (model : PredictionModel W S C D) :
    Except PredictionError Unit :=
  (m.validateDependencyRecords binding frame).bind fun _ =>
    let required := model.requiredDependencies state command
    if m.limits.dependencyEntities < required.length then .error .capacity
    else checkRequired frame ∅ required

end payload
end PredictionManager

namespace GroupHistory
variable {W S C D : Type}

/-- `active`: nothing when the group is not in recovery. -/
def active (history : GroupHistory S C D) : Except PredictionError Unit :=
  match history.recovery with
  | none => .ok ()
  | some reason => .error (.resyncRequired reason)

/-- The first frames are dropped while a condition on the first tick and the number of frames
holds. -/
def popWhile (cond : ℕ → ℕ → Bool) : ℕ → GroupHistory S C D → Except Halt (GroupHistory S C D)
  | 0, history => .ok history
  | fuel + 1, history =>
    match firstTick history.frames with
    | none => .ok history
    | some first =>
      if cond first history.frames.size then
        match (history.frames[first]?).bind fun frame => checkedSub history.bytes frame.bytes with
        | none => .error .panic
        | some bytes =>
            popWhile cond fuel { history with frames := history.frames.erase first, bytes }
      else .ok history

/-- The oldest frames are dropped until at most `count` are left. -/
def trim (count : ℕ) (history : GroupHistory S C D) : Except Halt (GroupHistory S C D) :=
  popWhile (fun _ size => count < size) history.frames.size history

def retireBefore (tick : ℕ) (history : GroupHistory S C D) : Except Halt (GroupHistory S C D) :=
  popWhile (fun first _ => first < tick) history.frames.size history

end GroupHistory

namespace PredictionManager
variable {W S C D : Type} [Payload S] [Payload C] [Payload D] [PredictionLayout S C D]

/-! ### Prediction -/

/-- The command of an input belongs to the owner and the tick; its sequence. -/
def checkCommand (owner : OwnerStream) (target : ℕ) (model : PredictionModel W S C D) :
    ReplayInput C → Except PredictionError (Option ℕ)
  | .substitute => .ok none
  | .command c =>
    match model.commandIdentity c with
    | (commandOwner, sequence, commandTarget) =>
      if commandOwner ≠ owner ∨ sequence = 0 ∨ commandTarget ≠ target ∨ !model.validCommand c then
        .error .invalidCommand
      else .ok (some sequence)

/-- The memory a predicted tick may need. -/
def predictScratch (m : PredictionManager S C D) (dependencies : ℕ) (command : ℕ) : Option ℕ :=
  (((checkedAdd 64 m.limits.checkpointBytes dependencies).bind (checkedAdd 64 · command)).bind
    fun n => (m.eventScratch 2).bind (checkedAdd 64 n ·)).bind
      (checkedAdd 64 · (PredictionLayout.historyFrame S C D + entryOverhead))

/-- The budget of a predicted tick, before its work is charged. -/
def checkPredictBudget (m : PredictionManager S C D) (members : ℕ)
    (dependencies : DependencyFrame D) (commandBytes : ℕ) : Except Halt Unit :=
  if m.limits.predictionTicksPerFrame ≤ m.work.predictedTicks ∨
      ¬(checkedAdd 64 m.work.predictedEntitySteps members).any
        (· ≤ m.limits.predictionEntityStepsPerFrame) then
    .error (.recover .replayBudget)
  else match dependencyBytes S C D dependencies with
    | .error error => .error (.error error)
    | .ok bytes =>
      match m.predictScratch bytes commandBytes with
      | none => .error (.error .capacity)
      | some scratch =>
        match m.reserve scratch with
        | .error _ => .error (.recover .memoryBudget)
        | .ok () => .ok ()

/-- The bytes of the command of an input. -/
def inputBytes (S C D : Type) [Payload C] [PredictionLayout S C D] :
    ReplayInput C → Except PredictionError ℕ
  | .command c => commandBytes S C D c
  | .substitute => .ok 0

/-- The checks of `predict_input` before work is charged: the state to step from and the sequence;
nothing for an input that is there already. -/
def admitInput [BEq C] (m : PredictionManager S C D) (history : GroupHistory S C D) (target : ℕ)
    (input : ReplayInput C) (dependencies : DependencyFrame D) (model : PredictionModel W S C D) :
    Except Halt (Option (S × Option ℕ)) :=
  if m.frame = none then .error (.error .noFrame)
  else match history.active with
  | .error error => .error (.error error)
  | .ok () =>
  match checkCommand history.identity.binding.owner target model input with
  | .error error => .error (.error error)
  | .ok sequence =>
  match (history.frames[target]?).bind (·.input) with
  | some old => if old == input then .ok none else .error (.error .equivocation)
  | none =>
  match (lastTick history.frames).bind fun current => (history.frames[current]?).map
    (current, ·) with
  | none => .error .panic
  | some (current, previous) =>
  if checkedNext current ≠ some target ∨
      sequence.any (fun sequence => history.lastSequence.any (sequence ≤ ·)) then
    .error (.error .wrongTick)
  else match inputBytes S C D input with
  | .error error => .error (.error error)
  | .ok bytes =>
  if m.limits.commandBytes < bytes then .error (.error .capacity)
  else match m.validateDependencies history.identity.binding previous.state input.command?
    dependencies
      model with
  | .error error => .error (.recover (reason error .missingDependency))
  | .ok () =>
    (m.checkPredictBudget history.identity.scopes.length dependencies bytes).map fun _ =>
      some (previous.state, sequence)

/-- The tick is computed, checked and appended, and the oldest frames give way. -/
def advance (m : PredictionManager S C D) (history : GroupHistory S C D) (previous : S)
    (sequence : Option ℕ) (target : ℕ) (input : ReplayInput C) (dependencies : DependencyFrame D)
    (model : PredictionModel W S C D) : Except Halt (GroupHistory S C D × EventChanges) :=
  match stepInput model previous target input dependencies with
  | .error error => .error (.recover (reason error .invalidState))
  | .ok (state, events) =>
  if (m.validateState state model).toOption.isNone ∨
      !m.validEvents history.identity.binding.owner.epoch events then
    .error (.recover .invalidState)
  else match framePartsBytes state (some input) dependencies events with
  | .error error => .error (.error error)
  | .ok bytes =>
  match m.reserve bytes with
  | .error _ => .error (.recover .memoryBudget)
  | .ok () =>
    let started := events.filter fun event =>
      ¬((values history.frames).any fun frame => event ∈ frame.events)
    (GroupHistory.trim (m.limits.historyTicks + 1) { history with
      bytes := history.bytes + bytes
      frames := history.frames.insert target ⟨state, some input, dependencies, events, bytes⟩
      lastSequence := sequence <|> history.lastSequence }).map (·, { started })

def predictGroup [BEq C] (m : PredictionManager S C D) (history : GroupHistory S C D) (target : ℕ)
    (input : ReplayInput C) (dependencies : DependencyFrame D) (model : PredictionModel W S C D) :
    PredictionWork × Except Halt (GroupHistory S C D × EventChanges) :=
  match m.admitInput history target input dependencies model with
  | .error halt => (m.work, .error halt)
  | .ok none => (m.work, .ok (history, {}))
  | .ok (some (previous, sequence)) =>
    ({ m.work with
        predictedTicks := m.work.predictedTicks + 1
        predictedEntitySteps := m.work.predictedEntitySteps + history.identity.scopes.length },
      m.advance history previous sequence target input dependencies model)

/-! ### Dependency samples -/

/-- A new sample of an entity against the one it replaces. -/
def checkSample [BEq D] (record previous : DependencyRecord D) : Option PredictionError :=
  if record.scope ≠ previous.scope ∨ record.sceneRevision ≠ previous.sceneRevision then
    some .invalidDependency
  else if record.version < previous.version then some .staleDependency
  else if record.version = previous.version ∧ record != previous then some .equivocation
  else none

/-- The first sample that cannot replace the one of its entity. -/
def checkSamples [BEq D] (old new : DependencyFrame D) : Option PredictionError :=
  new.records.toList.findSome? fun (entity, record) =>
    (old.records[entity]?).bind (checkSample record)

def updateGroup [BEq D] (m : PredictionManager S C D) (history : GroupHistory S C D) (tick : ℕ)
    (dependencies : DependencyFrame D) : Except Halt (GroupHistory S C D × Unit) :=
  match history.active with
  | .error error => .error (.error error)
  | .ok () =>
  match m.validateDependencyRecords history.identity.binding dependencies with
  | .error error => .error (.error error)
  | .ok () =>
  match history.frames[tick]? with
  | none => .error (.error (.resyncRequired .missingHistory))
  | some old =>
  match checkSamples old.dependencies dependencies with
  | some error => .error (.error error)
  | none =>
  if dependencies == old.dependencies then .ok (history, ())
  else match (dependencyBytes S C D dependencies).bind m.reserve with
  | .error error => .error (.error error)
  | .ok () =>
  match framePartsBytes old.state old.input dependencies old.events with
  | .error error => .error (.error error)
  | .ok size =>
  match checkedSub history.bytes old.bytes with
  | none => .error .panic
  | some rest =>
    .ok ({ history with
            frames := history.frames.insert tick { old with dependencies, bytes := size }
            bytes := rest + size
            dirtyFrom := some ((history.dirtyFrom.map (min · tick)).getD tick) }, ())

/-! ### Reconciliation -/

/-- A frame of a correction that is not published yet. -/
structure Staged (S : Type) where
  tick : ℕ
  state : S
  events : Finset ActionKey
  bytes : ℕ

/-- The checks of `reconcile` up to the decoded checkpoint: the frame at its tick, the predicted
tick and what was decoded; nothing for a stale proof. -/
def admitProof (m : PredictionManager S C D) (history : GroupHistory S C D)
    (proof : PublishedProof W) (binding : PredictionBinding) (finalizedThrough : ℕ)
    (model : PredictionModel W S C D) :
    Except Halt (Option (HistoryFrame S C D × ℕ × DecodedPrediction S D)) :=
  let publication := proof.publication
  if m.frame = none then .error (.error .noFrame)
  else match history.active with
  | .error error => .error (.error error)
  | .ok () =>
  if publication.revision < history.identity.groupRevision ∨
      (publication.revision = history.identity.groupRevision ∧
        publication.snapshot ≤ history.lastSnapshot) ∨
      proof.endTick < history.lastCheckpoint then .ok none
  else if publication.revision ≠ history.identity.groupRevision ∨
    binding ≠ history.identity.binding ∨
      proof.manifest ≠ history.identity.scopes then
    .error (.recover .identityChanged)
  else match lastTick history.frames with
  | none => .error .panic
  | some predicted =>
  if predicted < proof.endTick then .error (.recover .checkpointAhead)
  else if finalizedThrough < proof.endTick then .error (.error .invalidCommand)
  else match history.frames[proof.endTick]? with
  | none => .error (.recover .missingHistory)
  | some frame =>
  match checkedAdd 64 m.limits.checkpointBytes m.limits.dependencyBytes with
  | none => .error (.error .capacity)
  | some scratch =>
  match m.reserve scratch with
  | .error _ => .error (.recover .memoryBudget)
  | .ok () =>
  match model.decodeGroup proof binding with
  | .error error => .error (.recover (reason error .invalidState))
  | .ok decoded =>
  match m.validateState decoded.state model with
  | .error _ => .error (.recover .invalidState)
  | .ok () =>
  match m.validateDependencies binding decoded.state none decoded.dependencies model with
  | .error error => .error (.recover (reason error .missingDependency))
  | .ok () => .ok (some (frame, predicted, decoded))

/-- The frame of a checkpoint. -/
def checkpointFrame (decoded : DecodedPrediction S D) (bytes : ℕ) : HistoryFrame S C D :=
  ⟨decoded.state, none, decoded.dependencies, ∅, bytes⟩

/-- A checkpoint that agrees with the prediction. -/
def acceptEqual (history : GroupHistory S C D) (frame : HistoryFrame S C D)
    (proof : PublishedProof W) (decoded : DecodedPrediction S D) :
    Except Halt (GroupHistory S C D × Correction) :=
  match framePartsBytes decoded.state (none : Option (ReplayInput C)) decoded.dependencies ∅ with
  | .error error => .error (.error error)
  | .ok bytes =>
  match checkedSub history.bytes frame.bytes with
  | none => .error .panic
  | some rest =>
    (GroupHistory.retireBefore proof.endTick { history with
      frames := history.frames.insert proof.endTick (checkpointFrame decoded bytes)
      bytes := rest + bytes }).map fun history =>
        ({ history with
            lastSnapshot := proof.publication.snapshot, lastCheckpoint := proof.endTick }, .equal)

/-- The budget of a replay, before its work is charged: the entity steps. -/
def checkReplayBudget (m : PredictionManager S C D) (members ticks : ℕ) : Except Halt ℕ :=
  match checkedMul 64 ticks members with
  | none => .error (.error .capacity)
  | some steps =>
  if ¬(checkedAdd 64 m.work.replayTicks ticks).any (· ≤ m.limits.replayTicksPerFrame) ∨
      ¬(checkedAdd 64 m.work.replayEntitySteps steps).any
        (· ≤ m.limits.replayEntityStepsPerFrame) then
    .error (.recover .replayBudget)
  else match (m.eventScratch 5).bind fun events =>
      (checkedAdd 64 m.limits.checkpointBytes events).bind (checkedAdd 64 · entryOverhead) with
  | none => .error (.error .capacity)
  | some perFrame =>
  match (checkedMul 64 (ticks + 1) perFrame).bind (checkedAdd 64 · m.limits.dependencyBytes) with
  | none => .error (.error .capacity)
  | some scratch =>
  match m.reserve scratch with
  | .error _ => .error (.recover .memoryBudget)
  | .ok () => .ok steps

/-- The ticks from one on, replayed with what they recorded. -/
def replayFrom (m : PredictionManager S C D) (history : GroupHistory S C D)
    (binding : PredictionBinding) (model : PredictionModel W S C D) :
    ℕ → S → ℕ → Except Halt (List (Staged S))
  | _, _, 0 => .ok []
  | tick, previous, count + 1 =>
    match history.frames[tick]? with
    | none => .error (.recover .missingHistory)
    | some frame =>
    match frame.input with
    | none => .error (.recover .missingHistory)
    | some input =>
    match m.validateDependencies binding previous input.command? frame.dependencies model with
    | .error error => .error (.recover (reason error .missingDependency))
    | .ok () =>
    match stepInput model previous tick input frame.dependencies with
    | .error error => .error (.recover (reason error .invalidState))
    | .ok (state, events) =>
    if (m.validateState state model).toOption.isNone ∨
      !m.validEvents binding.owner.epoch events then
      .error (.recover .invalidState)
    else match framePartsBytes state (some input) frame.dependencies events with
    | .error error => .error (.error error)
    | .ok bytes =>
      (m.replayFrom history binding model (tick + 1) state count).map
        (⟨tick, state, events, bytes⟩ :: ·)

/-- One frame of a correction is published. -/
def publishFrame (checkpoint : ℕ) (history : GroupHistory S C D) (staged : Staged S) :
    Except Halt (GroupHistory S C D) :=
  match history.frames[staged.tick]? with
  | none => .error .panic
  | some frame =>
  match checkedSub history.bytes frame.bytes with
  | none => .error .panic
  | some rest =>
    .ok { history with
      frames := history.frames.insert staged.tick { frame with
        state := staged.state
        events := staged.events
        input := if staged.tick = checkpoint then none else frame.input
        bytes := staged.bytes }
      bytes := rest + staged.bytes }

/-- The events of the frames after a tick. -/
def eventsAfter (history : GroupHistory S C D) (tick : ℕ) : Finset ActionKey :=
  (history.frames.toList.filter fun (later, _) => tick < later).foldr (fun entry events =>
    entry.2.events ∪ events) ∅

/-- A correction is published as a whole. -/
def publish (history : GroupHistory S C D) (proof : PublishedProof W) (predicted : ℕ)
    (dependencies : DependencyFrame D) (staged : List (Staged S)) :
    Except Halt (GroupHistory S C D × Correction) :=
  let checkpoint := proof.endTick
  let oldEvents := eventsAfter history checkpoint
  let newEvents := (staged.drop 1).foldr (fun staged events => staged.events ∪ events) ∅
  (loop (publishFrame checkpoint) history staged).bind fun history =>
    match history.frames[checkpoint]? with
    | none => .error .panic
    | some frame =>
      (GroupHistory.retireBefore checkpoint { history with
        frames := history.frames.insert checkpoint { frame with dependencies } }).map fun history =>
          ({ history with
              lastSnapshot := proof.publication.snapshot
              lastCheckpoint := checkpoint
              dirtyFrom := none },
            if predicted - checkpoint = 0 then .replaced
            else .replayed (checkpoint + 1) predicted
              ⟨newEvents \ oldEvents, oldEvents \ newEvents⟩)

/-- A checkpoint that disagrees, or that comes to a history with replaced samples. -/
def replay (m : PredictionManager S C D) (history : GroupHistory S C D) (proof : PublishedProof W)
    (binding : PredictionBinding) (predicted : ℕ) (decoded : DecodedPrediction S D)
    (model : PredictionModel W S C D) : Except Halt (GroupHistory S C D × Correction) :=
  match framePartsBytes decoded.state (none : Option (ReplayInput C)) decoded.dependencies ∅ with
  | .error error => .error (.error error)
  | .ok bytes =>
    (m.replayFrom history binding model (proof.endTick + 1) decoded.state
        (predicted - proof.endTick)).bind fun staged =>
      publish history proof predicted decoded.dependencies
        (⟨proof.endTick, decoded.state, ∅, bytes⟩ :: staged)

def reconcileGroup [BEq S] [BEq D] (m : PredictionManager S C D) (history : GroupHistory S C D)
    (proof : PublishedProof W) (binding : PredictionBinding) (finalizedThrough : ℕ)
    (model : PredictionModel W S C D) :
    PredictionWork × Except Halt (GroupHistory S C D × Correction) :=
  match m.admitProof history proof binding finalizedThrough model with
  | .error halt => (m.work, .error halt)
  | .ok none => (m.work, .ok (history, .stale))
  | .ok (some (frame, predicted, decoded)) =>
    if decoded.state != frame.state || decoded.dependencies != frame.dependencies ||
        history.dirtyFrom.isSome then
      match m.checkReplayBudget history.identity.scopes.length (predicted - proof.endTick) with
      | .error halt => (m.work, .error halt)
      | .ok steps =>
        ({ m.work with
            replayTicks := m.work.replayTicks + (predicted - proof.endTick)
            replayEntitySteps := m.work.replayEntitySteps + steps },
          m.replay history proof binding predicted decoded model)
    else (m.work, acceptEqual history frame proof decoded)

end PredictionManager
end Net.Prediction
