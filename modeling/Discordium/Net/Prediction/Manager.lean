import Discordium.Net.Prediction.History

/-!
# Net — Prediction — Manager

The manager of all predicted groups of a connection, as `prediction/manager.rs` has it: groups are
entered from published proofs, replaced together by an authoritative change of topology, and
removed; every call on one group goes through `withGroup`, which keeps the manager's bytes in step
with the group's.  `call` is one call of any kind, and its answer.
-/

namespace Net.Prediction
open Lib
open Std (ExtTreeMap)

namespace TopologyFences

/-- `bytes_for`; nothing on overflow. -/
def bytesFor (S C D : Type) [PredictionLayout S C D] (groups members : ℕ) : Option ℕ :=
  (checkedMul 64 groups (entryOverhead + PredictionLayout.fenceGroup S C D)).bind fun n =>
    (checkedMul 64 members (entryOverhead + PredictionLayout.fenceMember S C D)).bind
      (checkedAdd 64 n ·)

/-- `bytes`; nothing where its `expect` would fail. -/
def bytes (S C D : Type) [PredictionLayout S C D] (fences : TopologyFences) : Option ℕ :=
  bytesFor S C D fences.groups.size fences.members.size

/-- The mark of one member of an identity. -/
def recordMember (binding : PredictionBinding) (members : ExtTreeMap ℕ MemberMark)
    (scope : ScopeIdentity) : ExtTreeMap ℕ MemberMark :=
  members.insert scope.entity.index
    ⟨scope, binding.sceneRevision,
      if scope.entity.index = binding.owner.owner.index then some binding
      else (members[scope.entity.index]?).bind (·.owner)⟩

def record (fences : TopologyFences) (identity : PredictionIdentity) (snapshot tick : ℕ) :
    TopologyFences where
  groups := fences.groups.insert identity.group ⟨identity.groupRevision, snapshot, tick⟩
  members := identity.scopes.foldl (recordMember identity.binding) fences.members

/-- The binding may follow an earlier one of the same owner. -/
def bindingFollows (binding previous : PredictionBinding) : Prop :=
  binding.owner.connection = previous.owner.connection ∧
    previous.owner.owner.generation ≤ binding.owner.owner.generation ∧
    previous.owner.ownership ≤ binding.owner.ownership ∧ previous.owner.stream ≤
      binding.owner.stream ∧
    previous.teleportSegment ≤ binding.teleportSegment

instance (binding previous : PredictionBinding) : Decidable (bindingFollows binding previous) :=
  inferInstanceAs (Decidable (_ ∧ _))

/-- The scope may follow an earlier one of the same index. -/
def scopeFollows (scope previous : ScopeIdentity) : Prop :=
  previous.entity.generation ≤ scope.entity.generation ∧ previous.scope ≤ scope.scope ∧
    previous.representation ≤ scope.representation

instance (scope previous : ScopeIdentity) : Decidable (scopeFollows scope previous) :=
  inferInstanceAs (Decidable (_ ∧ _))

/-- The member may follow what was recorded of its index. -/
def memberFollows (binding : PredictionBinding) (scope : ScopeIdentity)
    (mark : MemberMark) : Prop :=
  scopeFollows scope mark.scope ∧ mark.scene ≤ binding.sceneRevision ∧
    (scope.entity.index = binding.owner.owner.index → ∀ previous ∈ mark.owner,
      bindingFollows binding previous)

instance (binding : PredictionBinding) (scope : ScopeIdentity) (mark : MemberMark) :
    Decidable (memberFollows binding scope mark) :=
  inferInstanceAs (Decidable (_ ∧ _ ∧ _))

def validate {W : Type} (fences : TopologyFences) (proof : PublishedProof W)
    (binding : PredictionBinding) : Except PredictionError Unit :=
  let publication := proof.publication
  if (fences.groups[publication.group]?).any fun mark =>
      publication.revision ≤ mark.revision ∨ publication.snapshot ≤ mark.snapshot ∨
        proof.endTick < mark.tick then
    .error .invalidIdentity
  else if proof.manifest.all fun scope =>
      (fences.members[scope.entity.index]?).all fun mark => memberFollows binding scope mark then
    .ok ()
  else .error .invalidIdentity

end TopologyFences

namespace PredictionManager
variable {W S C D : Type}

def new (connection : ℕ) (limits : PredictionLimits) :
    Except PredictionError (PredictionManager S C D) :=
  if connection = 0 ∨ 0 ∈ [limits.groups, limits.entitiesPerGroup, limits.totalEntities,
        limits.historyTicks, limits.checkpointBytes, limits.commandBytes, limits.dependencyEntities,
        limits.dependencyBytes, limits.eventsPerTick, limits.historyBytes,
        limits.replayTicksPerFrame,
        limits.replayEntityStepsPerFrame, limits.predictionTicksPerFrame,
        limits.predictionEntityStepsPerFrame] ∨
      limits.totalEntities < limits.entitiesPerGroup ∨ limits.historyTicks = wordMax 64 ∨
      limits.historyBytes < limits.checkpointBytes then
    .error .invalidConfiguration
  else .ok
    { connection, limits, groups := ∅, bytes := 0, entities := 0, frame := none, work := {}
      topologyFences := ⟨∅, ∅⟩ }

def beginFrame (m : PredictionManager S C D) (frame : ℕ) :
    PredictionManager S C D × Answer PredictionError Unit :=
  if m.frame.any (frame ≤ ·) then (m, .err .nonMonotonicFrame)
  else ({ m with frame := some frame, work := {} }, .ok ())

/-- The group has a member of the index of one of the scopes. -/
def sharesMember (history : GroupHistory S C D) (manifest : List ScopeIdentity) : Bool :=
  history.identity.scopes.any fun old => manifest.any fun new => old.entity.index = new.entity.index

section payload
variable [Payload S] [Payload C] [Payload D] [PredictionLayout S C D]

/-! ### Entering a group -/

/-- The checks of `initialize` on the proof, the binding and the groups there are. -/
def admitGroup (m : PredictionManager S C D) (proof : PublishedProof W)
    (binding : PredictionBinding) : Except PredictionError Unit :=
  if m.groups.contains proof.publication.group then .error .alreadyInitialized
  else match m.topologyFences.validate proof binding with
  | .error error => .error error
  | .ok () =>
  if proof.publication.connection ≠ m.connection ∨ binding.owner.epoch ≠ m.connection ∨
      binding.owner.owner.generation = 0 ∨ binding.owner.ownership = 0 ∨ binding.owner.stream = 0 ∨
      ¬proof.manifest.any (fun scope => scope.entity = binding.owner.owner) then
    .error .invalidIdentity
  else if m.limits.groups ≤ m.groups.size ∨ m.limits.entitiesPerGroup < proof.manifest.length ∨
      ¬(checkedAdd 64 m.entities proof.manifest.length).any (· ≤ m.limits.totalEntities) then
    .error .capacity
  else if (values m.groups).any fun history => sharesMember history proof.manifest then
    .error .invalidIdentity
  else .ok ()

/-- The charge for the identity of a group. -/
def identityBytes (S C D : Type) [PredictionLayout S C D] (scopes : ℕ) : Option ℕ :=
  (checkedMul 64 scopes (entryOverhead + PredictionLayout.scopeIdentity S C D)).bind
    (checkedAdd 64 · (PredictionLayout.groupHistory S C D + entryOverhead))

/-- The history a group starts with. -/
def decodeHistory (m : PredictionManager S C D) (proof : PublishedProof W)
    (binding : PredictionBinding) (model : PredictionModel W S C D) :
    Except PredictionError (GroupHistory S C D) :=
  (orCapacity (checkedAdd 64 m.limits.checkpointBytes m.limits.dependencyBytes)).bind fun scratch =>
    (m.reserve scratch).bind fun _ =>
      (model.decodeGroup proof binding).bind fun decoded =>
        (m.validateState decoded.state model).bind fun _ =>
          (m.validateDependencies binding decoded.state none decoded.dependencies
            model).bind fun _ =>
            (framePartsBytes decoded.state (none : Option (ReplayInput C))
              decoded.dependencies ∅).bind
              fun frameBytes =>
                (orCapacity ((identityBytes S C D proof.manifest.length).bind
                    (checkedAdd 64 · frameBytes))).bind fun bytes =>
                  (m.reserve bytes).map fun _ =>
                    { identity := ⟨binding, proof.publication.group, proof.publication.revision,
                        proof.manifest⟩
                      frames := (∅ : ExtTreeMap ℕ (HistoryFrame S C D)).insert proof.endTick
                        (checkpointFrame decoded frameBytes)
                      lastSnapshot := proof.publication.snapshot
                      lastCheckpoint := proof.endTick
                      lastSequence := none
                      dirtyFrom := none
                      recovery := none
                      bytes }

/-- The manager with the group entered. -/
def enterGroup (m : PredictionManager S C D) (proof : PublishedProof W)
    (binding : PredictionBinding) (model : PredictionModel W S C D) :
    Except PredictionError (PredictionManager S C D) :=
  (m.admitGroup proof binding).bind fun _ =>
    (m.decodeHistory proof binding model).map fun history =>
      { m with
        groups := m.groups.insert proof.publication.group history
        bytes := m.bytes + history.bytes
        entities := m.entities + proof.manifest.length }

/-- `initialize`. -/
def initializeGroup (m : PredictionManager S C D) (proof : PublishedProof W)
    (binding : PredictionBinding) (model : PredictionModel W S C D) :
    PredictionManager S C D × Answer PredictionError Unit :=
  match m.enterGroup proof binding model with
  | .error error => (m, .err error)
  | .ok m => (m, .ok ())

/-- `remove_group`: nothing where a subtraction would fail. -/
def dropGroup (m : PredictionManager S C D) (group : ℕ) : Option (PredictionManager S C D × Bool) :=
  match m.groups[group]? with
  | none => some (m, false)
  | some old =>
    (checkedSub m.bytes old.bytes).bind fun bytes =>
      (checkedSub m.entities old.identity.scopes.length).map fun entities =>
        ({ m with groups := m.groups.erase group, bytes, entities }, true)

def removeGroup (m : PredictionManager S C D) (group : ℕ) :
    PredictionManager S C D × Answer PredictionError Bool :=
  match m.dropGroup group with
  | none => (m, .panic)
  | some (m, removed) => (m, .ok removed)

/-! ### Replacing groups -/

/-- The groups to retire are there, each once. -/
def checkRetired (m : PredictionManager S C D) :
    Finset ℕ → List PredictionIdentity → Except PredictionError (Finset ℕ)
  | retiring, [] => .ok retiring
  | retiring, identity :: identities =>
    if identity.group ∈ retiring ∨
        (m.groups[identity.group]?).map (·.identity) ≠ some identity then .error .invalidIdentity
    else m.checkRetired (insert identity.group retiring) identities

/-- A replacement against one group that it may follow. -/
def checkSuccessor (old : PredictionIdentity) (history : GroupHistory S C D) (tick : ℕ)
    (proof : PublishedProof W) (binding : PredictionBinding) : Except PredictionError Unit :=
  if tick < history.lastCheckpoint then .error .wrongTick
  else if binding.sceneRevision < old.binding.sceneRevision ∨
      (proof.publication.group = old.group ∧ (proof.publication.revision ≤ old.groupRevision ∨
        proof.publication.snapshot ≤ history.lastSnapshot)) then .error .invalidIdentity
  else if binding.owner.owner.index = old.binding.owner.owner.index ∧
      ¬TopologyFences.bindingFollows binding old.binding then .error .invalidIdentity
  else if proof.manifest.any fun new => old.scopes.any fun previous =>
      previous.entity.index = new.entity.index ∧ ¬TopologyFences.scopeFollows new previous then
    .error .invalidIdentity
  else .ok ()

/-- The checks of a replacement against all groups it may follow, in order. -/
def checkSuccessors (m : PredictionManager S C D) (tick : ℕ) (proof : PublishedProof W)
    (binding : PredictionBinding) : List PredictionIdentity → Except Halt Unit
  | [] => .ok ()
  | old :: retired =>
    match m.groups[old.group]? with
    | none => .error .panic
    | some history =>
      match checkSuccessor old history tick proof binding with
      | .error error => .error (.error error)
      | .ok () => m.checkSuccessors tick proof binding retired

/-- The checks of one replacement. -/
def checkReplacement (m : PredictionManager S C D) (fences : TopologyFences) (tick : ℕ)
    (retiring : Finset ℕ) (retired : List PredictionIdentity) (proof : PublishedProof W)
    (binding : PredictionBinding) : Except Halt Unit :=
  match fences.validate proof binding with
  | .error error => .error (.error error)
  | .ok () =>
  if proof.endTick ≠ tick then .error (.error .wrongTick)
  else if m.groups.contains proof.publication.group ∧ proof.publication.group ∉ retiring then
    .error (.error .invalidIdentity)
  else match m.checkSuccessors tick proof binding retired with
  | .error halt => .error halt
  | .ok () =>
  if (m.groups.toList.filter fun (id, _) => id ∉ retiring).any fun (_, history) =>
      sharesMember history proof.manifest then
    .error (.error .invalidIdentity)
  else .ok ()

/-- The fences with the marks of retired groups. -/
def recordRetired (m : PredictionManager S C D) :
    TopologyFences → List PredictionIdentity → Except Halt TopologyFences
  | fences, [] => .ok fences
  | fences, old :: retired =>
    match m.groups[old.group]? with
    | none => .error .panic
    | some history =>
      m.recordRetired (fences.record old history.lastSnapshot history.lastCheckpoint) retired

/-- The fences with the marks of all groups of a manager. -/
def recordGroups (m : PredictionManager S C D) (fences : TopologyFences) : TopologyFences :=
  (values m.groups).foldl (fun fences history =>
    fences.record history.identity history.lastSnapshot history.lastCheckpoint) fences

/-- A sum of counts; nothing on overflow. -/
def checkedSum : ℕ → List ℕ → Option ℕ
  | count, [] => some count
  | count, n :: ns => (checkedAdd 64 count n).bind fun count => checkedSum count ns

/-- The events of the frames of retired groups after a tick that no remaining frame has. -/
def canceledEvents (m : PredictionManager S C D) (retiring : Finset ℕ)
    (retired : List PredictionIdentity) (tick : ℕ) : Finset ActionKey :=
  let later := retired.foldr (fun identity events =>
    ((m.groups[identity.group]?).elim ∅ fun history => eventsAfter history tick) ∪ events) ∅
  later.filter fun event =>
    ¬(m.groups.toList.any fun (id, history) => history.frames.toList.any fun (later, frame) =>
      (id ∉ retiring ∨ later ≤ tick) ∧ event ∈ frame.events)

/-- The number of events of the frames of a group after a tick, frame by frame. -/
def laterEventCounts (history : GroupHistory S C D) (tick : ℕ) : List ℕ :=
  (history.frames.toList.filter fun (later, _) => tick < later).map fun (_, frame) =>
    frame.events.card

/-- What a replacement needs to be committed. -/
structure Replacement (S C D : Type) where
  tick : ℕ
  added : ℕ
  fences : TopologyFences
  staged : ExtTreeMap ℕ (GroupHistory S C D)
  stagedBytes : ℕ
  canceled : Finset ActionKey

/-- An error of the manager's own stops a call without more. -/
def orHalt {α : Type} : Except PredictionError α → Except Halt α
  | .ok a => .ok a
  | .error error => .error (.error error)

/-- The sizes of a replacement: the bytes of its metadata, the entities it adds, and the scratch for
its fences. -/
def measureReplacement (m : PredictionManager S C D) (retired : List PredictionIdentity)
    (replacements : List (PublishedProof W × PredictionBinding)) : Except Halt (ℕ × ℕ × ℕ) := do
  require (.error .capacity) (retired ≠ [] ∧ replacements ≠ [] ∧ retired.length ≤ m.limits.groups ∧
    replacements.length ≤ m.limits.groups)
  let metadata ← orHalt (orCapacity
    ((checkedMul 64 retired.length (entryOverhead + PredictionLayout.groupId S C D)).bind
      (checkedAdd 64 · (PredictionLayout.manager S C D))))
  orHalt (m.reserve metadata)
  let _ ← orHalt (m.checkRetired ∅ retired)
  let others ← obtainOr .panic (checkedSub m.groups.size retired.length)
  require (.error .capacity) (others + replacements.length ≤ m.limits.groups)
  let removed := (retired.map fun identity => identity.scopes.length).sum
  let added ← orHalt (orCapacity (checkedSum 0 (replacements.map fun (proof, _) =>
      proof.manifest.length)))
  let kept ← obtainOr .panic (checkedSub m.entities removed)
  require (.error .capacity) ((checkedAdd 64 kept added).any (· ≤ m.limits.totalEntities))
  let scratch ← orHalt (orCapacity
    ((checkedSum m.topologyFences.groups.size [retired.length, replacements.length]).bind
      fun groups =>
      (checkedSum m.topologyFences.members.size [removed, added]).bind fun members =>
        TopologyFences.bytesFor S C D groups members))
  let both ← orHalt (orCapacity (checkedAdd 64 metadata scratch))
  orHalt (m.reserve both)
  pure (metadata, added, scratch)

/-- The replacements decoded in a manager of their own, whose bytes start with those of everything
there is. -/
def stageReplacements (m : PredictionManager S C D) (bytes : ℕ)
    (replacements : List (PublishedProof W × PredictionBinding)) (model : PredictionModel W S C D) :
    Except PredictionError (PredictionManager S C D) :=
  (new m.connection m.limits).bind fun staged =>
    loop (fun staged (proof, binding) => enterGroup staged proof binding model)
      { staged with bytes }
      replacements

/-- The checks and the staging of `replace_groups`. -/
def planReplacement (m : PredictionManager S C D) (retired : List PredictionIdentity)
    (replacements : List (PublishedProof W × PredictionBinding)) (model : PredictionModel W S C D) :
    Except Halt (Replacement S C D) := do
  require (.error .noFrame) (m.frame ≠ none)
  let (metadata, added, scratch) ← m.measureReplacement retired replacements
  let tick ← obtainOr .panic (replacements.head?.map fun (proof, _) => proof.endTick)
  let retiring := (retired.map (·.group)).toFinset
  let fences ← m.recordRetired m.topologyFences retired
  let _ ← loop (fun _ (proof, binding) =>
    m.checkReplacement fences tick retiring retired proof binding) () replacements
  let staged ← orHalt (m.stageReplacements (m.bytes + metadata + scratch) replacements model)
  let fences := staged.recordGroups fences
  require (.error .capacity)
    ((checkedMul 64 m.limits.groups (m.limits.historyTicks + 1)).any (fences.groups.size ≤ ·) ∧
      (checkedMul 64 m.limits.totalEntities (m.limits.historyTicks + 1)).any
        (fences.members.size ≤ ·))
  let count ← orHalt (orCapacity (checkedSum 0 (retired.flatMap fun identity =>
    ((m.groups[identity.group]?).elim [] fun history => laterEventCounts history tick))))
  let events ← orHalt (orCapacity
    (checkedMul 64 count (entryOverhead + PredictionLayout.actionKey S C D)))
  orHalt (staged.reserve events)
  let stagedBytes ← obtainOr .panic
    (((checkedSub staged.bytes m.bytes).bind (checkedSub · metadata)).bind (checkedSub · scratch))
  pure
    { tick, added, fences, staged := staged.groups, stagedBytes
      canceled := m.canceledEvents retiring retired tick }

/-- The retired groups are dropped, one after the other. -/
def dropGroups (m : PredictionManager S C D) :
    List PredictionIdentity → Option (PredictionManager S C D)
  | [] => some m
  | identity :: identities =>
      (m.dropGroup identity.group).bind fun (m, _) => m.dropGroups identities

/-- The replacement takes the place of the retired groups. -/
def commitReplacement (m : PredictionManager S C D) (retired : List PredictionIdentity)
    (r : Replacement S C D) : Option (PredictionManager S C D) :=
  (m.dropGroups retired).bind fun m =>
    (m.topologyFences.bytes S C D).bind fun old =>
      (checkedSub m.bytes old).bind fun rest =>
        (r.fences.bytes S C D).map fun new =>
          { m with
            groups := r.staged.foldl (fun groups id history => groups.insert id history) m.groups
            bytes := rest + r.stagedBytes + new
            topologyFences := r.fences
            entities := m.entities + r.added }

def replaceGroups (m : PredictionManager S C D) (retired : List PredictionIdentity)
    (replacements : List (PublishedProof W × PredictionBinding)) (model : PredictionModel W S C D) :
    PredictionManager S C D × Answer PredictionError AuthoritativeRebase :=
  match m.planReplacement retired replacements model with
  | .error (.error error) => (m, .err error)
  -- no check of a replacement asks for a recovery
  | .error (.recover reason) => (m, .err (.resyncRequired reason))
  | .error .panic => (m, .panic)
  | .ok r =>
    match m.commitReplacement retired r with
    | none => (m, .panic)
    | some m => (m, .ok ⟨r.tick, ⟨∅, r.canceled⟩⟩)

/-! ### Calls on one group -/

/-- What is left of a history after a call. -/
def settle {R : Type} (history : GroupHistory S C D) :
    Except Halt (GroupHistory S C D × R) → GroupHistory S C D × Answer PredictionError R
  | .ok (history, value) => (history, .ok value)
  | .error (.error error) => (history, .err error)
  | .error (.recover reason) => ({ history with recovery := some reason },
      .err (.resyncRequired reason))
  | .error .panic => (history, .panic)

def withGroup {R : Type} (m : PredictionManager S C D) (group : ℕ)
    (apply : GroupHistory S C D → PredictionWork × Except Halt (GroupHistory S C D × R)) :
    PredictionManager S C D × Answer PredictionError R :=
  match m.groups[group]? with
  | none => (m, .err .unknownGroup)
  | some history =>
    match apply history with
    | (work, result) =>
      match settle history result with
      | (after, answer) =>
        match checkedSub m.bytes history.bytes with
        | none => (m, .panic)
        | some rest =>
          ({ m with work, groups := m.groups.insert group after, bytes := rest + after.bytes },
            answer)

def predictInput [BEq C] (m : PredictionManager S C D) (group target : ℕ) (input : ReplayInput C)
    (dependencies : DependencyFrame D) (model : PredictionModel W S C D) :
    PredictionManager S C D × Answer PredictionError EventChanges :=
  m.withGroup group fun history => m.predictGroup history target input dependencies model

def predict [BEq C] (m : PredictionManager S C D) (group : ℕ) (command : C)
    (dependencies : DependencyFrame D) (model : PredictionModel W S C D) :
    PredictionManager S C D × Answer PredictionError EventChanges :=
  m.predictInput group (model.commandIdentity command).2.2 (.command command) dependencies model

def predictSubstitute [BEq C] (m : PredictionManager S C D) (group target : ℕ)
    (dependencies : DependencyFrame D) (model : PredictionModel W S C D) :
    PredictionManager S C D × Answer PredictionError EventChanges :=
  m.predictInput group target .substitute dependencies model

def updateDependencies [BEq D] (m : PredictionManager S C D) (group tick : ℕ)
    (dependencies : DependencyFrame D) : PredictionManager S C D × Answer PredictionError Unit :=
  m.withGroup group fun history => (m.work, m.updateGroup history tick dependencies)

def reconcile [BEq S] [BEq D] (m : PredictionManager S C D) (proof : PublishedProof W)
    (binding : PredictionBinding) (finalizedThrough : ℕ) (model : PredictionModel W S C D) :
    PredictionManager S C D × Answer PredictionError Correction :=
  if proof.publication.connection ≠ m.connection then (m, .err .invalidIdentity)
  else m.withGroup proof.publication.group fun history =>
    m.reconcileGroup history proof binding finalizedThrough model

end payload

/-- The scope is one of the group's own or of a sample it keeps. -/
def discloses (history : GroupHistory S C D) (scope : ScopeIdentity) : Bool :=
  scope ∈ history.identity.scopes ∨
    (values history.frames).any fun frame =>
      (values frame.dependencies.records).any fun record => record.scope = scope

def revokeScope (m : PredictionManager S C D) (scope : ScopeIdentity) : PredictionManager S C D :=
  { m with
    groups := m.groups.map fun _ history =>
      if discloses history scope then { history with recovery := some .disclosureRevoked }
        else history }

end PredictionManager

/-! ### Calls -/

/-- One call on a manager.  The model is given anew at each call. -/
inductive Call (W S C D : Type) where
  | beginFrame (frame : ℕ)
  | initializeGroup (proof : PublishedProof W) (binding : PredictionBinding)
  | predict (group : ℕ) (command : C) (dependencies : DependencyFrame D)
  | predictSubstitute (group target : ℕ) (dependencies : DependencyFrame D)
  | updateDependencies (group tick : ℕ) (dependencies : DependencyFrame D)
  | reconcile (proof : PublishedProof W) (binding : PredictionBinding) (finalizedThrough : ℕ)
  | replaceGroups (retired : List PredictionIdentity)
      (replacements : List (PublishedProof W × PredictionBinding))
  | revokeScope (scope : ScopeIdentity)
  | removeGroup (group : ℕ)

/-- The answers of all calls. -/
inductive Value where
  | done
  | removed (was : Bool)
  | events (changes : EventChanges)
  | correction (correction : Correction)
  | rebased (rebase : AuthoritativeRebase)
  deriving DecidableEq

/-- An answer as a value of any call. -/
def lift {α : Type} (wrap : α → Value) : Answer PredictionError α → Answer PredictionError Value
  | .ok a => .ok (wrap a)
  | .err error => .err error
  | .panic => .panic

namespace PredictionManager
variable {W S C D : Type} [Payload S] [Payload C] [Payload D] [PredictionLayout S C D]
  [BEq S] [BEq C] [BEq D]

def call (m : PredictionManager S C D) (model : PredictionModel W S C D) :
    Call W S C D → PredictionManager S C D × Answer PredictionError Value
  | .beginFrame frame => (m.beginFrame frame).map id (lift fun _ => .done)
  | .initializeGroup proof binding =>
      (m.initializeGroup proof binding model).map id (lift fun _ => .done)
  | .predict group command dependencies =>
    (m.predict group command dependencies model).map id (lift .events)
  | .predictSubstitute group target dependencies =>
    (m.predictSubstitute group target dependencies model).map id (lift .events)
  | .updateDependencies group tick dependencies =>
    (m.updateDependencies group tick dependencies).map id (lift fun _ => .done)
  | .reconcile proof binding finalizedThrough =>
    (m.reconcile proof binding finalizedThrough model).map id (lift .correction)
  | .replaceGroups retired replacements =>
    (m.replaceGroups retired replacements model).map id (lift .rebased)
  | .revokeScope scope => (m.revokeScope scope, .ok .done)
  | .removeGroup group => (m.removeGroup group).map id (lift .removed)

end PredictionManager
end Net.Prediction
