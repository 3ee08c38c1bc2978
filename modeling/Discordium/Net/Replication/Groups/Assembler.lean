import Discordium.Lib.Totals
import Discordium.Net.Replication.Client

/-!
# Net — Replication — Groups — Assembler

The staging of group publications, as `replication/groups.rs` has it.  A publication comes in
chunks, each with the whole manifest and some of its members; when the last chunk is there, all
members are applied to a copy of the client, which replaces the client if every one of them is
accepted.  A group keeps a fence, the last publication it has heard of, whether that was published
or not.

The capacities of the vectors of a chunk are what its decoder left them at, so a chunk carries them.
The checks of `receive` are one function each, in their order.
-/

namespace Net
open Lib
open Std (ExtTreeMap)

structure GroupPublication where
  connection : ℕ
  group : ℕ
  revision : ℕ
  snapshot : ℕ
  deriving DecidableEq

structure GroupChunk (P : Type) where
  publication : GroupPublication
  endTick : ℕ
  manifest : List ScopeIdentity
  manifestCapacity : ℕ
  index : ℕ
  count : ℕ
  members : List (FullState P)
  membersCapacity : ℕ

structure GroupLimits where
  members : ℕ
  chunks : ℕ
  incomplete : ℕ
  knownGroups : ℕ
  stagingBytes : ℕ
  groupBytes : ℕ
  maxAgeMs : ℕ

/-- `GroupLimits::default()`. -/
def GroupLimits.default : GroupLimits where
  members := 32
  chunks := 16
  incomplete := 8
  knownGroups := 8
  stagingBytes := 128 * 1024
  groupBytes := 16384
  maxAgeMs := 2000

inductive GroupProgress where
  | staged
  | published (receipts : List StateReceipt)
  deriving DecidableEq

structure Assembly (P : Type) where
  endTick : ℕ
  manifest : List ScopeIdentity
  chunks : List (Option (List (FullState P)))
  startedMs : ℕ
  bytes : ℕ

structure GroupFence where
  publication : GroupPublication
  endTick : ℕ
  manifest : List ScopeIdentity
  receipts : Option (List StateReceipt)

/-- The sizes of a stored state and of a scope identity, `size_of`. -/
class StateLayout (P : Type) where
  fullState : ℕ
  scopeIdentity : ℕ

structure GroupAssembler (P : Type) where
  connection : ℕ
  limits : GroupLimits
  assemblies : ExtTreeMap ℕ (Assembly P)
  fences : ExtTreeMap ℕ GroupFence
  bytes : ℕ
  nowMs : ℕ

/-- The fields in the order they are compared in. -/
def ScopeIdentity.path (scope : ScopeIdentity) : List ℕ :=
  [scope.connection, scope.entity.index, scope.entity.generation, scope.scope, scope.representation]

namespace Assembly
variable {P : Type}

/-- The members that are there, in the order of their chunks. -/
def members (assembly : Assembly P) : List (FullState P) :=
  (assembly.chunks.filterMap id).flatten

end Assembly

namespace GroupAssembler
variable {P : Type}

def new (connection : ℕ) (limits : GroupLimits) : Except ReplicationError (GroupAssembler P) :=
  if connection = 0 ∨ limits.members = 0 ∨ limits.chunks = 0 ∨ limits.incomplete = 0 ∨
      limits.knownGroups < limits.incomplete ∨ limits.groupBytes = 0 ∨
      limits.stagingBytes < limits.groupBytes ∨ limits.maxAgeMs = 0 then
    .error .invalidConfiguration
  else .ok { connection, limits, assemblies := ∅, fences := ∅, bytes := 0, nowMs := 0 }

/-- The assembly is within its deadline. -/
def young (limits : GroupLimits) (nowMs : ℕ) (assembly : Assembly P) : Bool :=
  nowMs - assembly.startedMs < limits.maxAgeMs

def expire (assembler : GroupAssembler P) (nowMs : ℕ) :
    Except ReplicationError (GroupAssembler P × ℕ) :=
  if nowMs < assembler.nowMs then .error .stale
  else
    let kept := assembler.assemblies.filter fun _ assembly => young assembler.limits nowMs assembly
    let dropped := assembler.assemblies.filter fun _ assembly =>
      !young assembler.limits nowMs assembly
    .ok ({ assembler with
            nowMs, assemblies := kept, bytes := assembler.bytes - total Assembly.bytes dropped },
          assembler.assemblies.size - kept.size)

/-! ### Checks of a chunk by itself -/

/-- The manifest is one of valid scopes of the connection, in order, with no index twice. -/
def screenManifest (connection : ℕ) :
    Option ScopeIdentity → List ℕ → List ScopeIdentity → Option ReplicationError
  | _, _, [] => none
  | previous, indices, scope :: scopes =>
    match validateScope scope connection with
    | some error => some error
    | none =>
      if scope.entity.index ∈ indices ∨ previous.any (fun p => ¬p.path < scope.path) then
        some .conflict
      else screenManifest connection (some scope) (scope.entity.index :: indices) scopes

/-- The members are valid states of the manifest at the chunk's tick, each once; the sum of what
they retain. -/
def screenMembers [Payload P] (chunk : GroupChunk P) (connection : ℕ) (validate : P → Bool) :
    List ScopeIdentity → ℕ → List (FullState P) → Except ReplicationError ℕ
  | _, bytes, [] => .ok bytes
  | ids, bytes, state :: states =>
    match state.validateIdentity connection with
    | some error => .error error
    | none =>
      if state.endTick ≠ chunk.endTick ∨ state.scope ∉ chunk.manifest ∨ state.scope ∈ ids then
        .error .conflict
      else if !validate state.payload then .error .invalidPayload
      else match checkedAdd 64 bytes (Payload.retainedBytes state.payload) with
        | none => .error .capacity
        | some bytes => screenMembers chunk connection validate (state.scope :: ids) bytes states

/-- The checks of `receive` that look at the chunk, the connections and the limits only; the bytes
of the members. -/
def screen [Payload P] [StateLayout P] (assembler : GroupAssembler P) (chunk : GroupChunk P)
    (client : ClientScopes P) (validate : P → Bool) : Except ReplicationError ℕ :=
  let key := chunk.publication
  if key.connection ≠ assembler.connection ∨ client.connection ≠ assembler.connection then
    .error .stale
  else if key.revision = 0 ∨ key.snapshot = 0 ∨ chunk.manifest = [] ∨
      assembler.limits.members < chunk.manifest.length ∨ chunk.count = 0 ∨
      assembler.limits.chunks < chunk.count ∨ chunk.manifest.length < chunk.count ∨
      chunk.count ≤ chunk.index ∨ chunk.members = [] ∨
      chunk.manifest.length < chunk.members.length then
    .error .invalidIdentity
  else match screenManifest assembler.connection none [] chunk.manifest with
    | some error => .error error
    | none =>
      match checkedMul 64 chunk.membersCapacity (StateLayout.fullState P) with
      | none => .error .capacity
      | some bytes => screenMembers chunk assembler.connection validate [] bytes chunk.members

/-! ### Checks against the group -/

/-- What the fence of the group makes of a chunk. -/
inductive Screened where
  /-- The publication is already there: its receipts are repeated. -/
  | acknowledged (receipts : List StateReceipt)
  /-- The chunk is to be staged, in place of another publication or not. -/
  | fresh (replace : Bool) (startedMs : ℕ)

/-- The repeated acknowledgement of a publication. -/
def acknowledge [DecidableEq P] (chunk : GroupChunk P) (client : ClientScopes P)
    (receipts : List StateReceipt) : Except ReplicationError Screened :=
  if ¬receipts.all (fun r => (client.state r.scope.entity).any (fun s => s.receipt = r)) then
    .error .stale
  else if ¬chunk.members.all (fun s => client.state s.scope.entity = some s) then .error .conflict
  else .ok (.acknowledged receipts)

/-- Two publications of one revision that cannot both be. -/
def conflicts (chunk : GroupChunk P) (fence : GroupFence) : Prop :=
  chunk.publication.revision = fence.publication.revision ∧
    (chunk.manifest ≠ fence.manifest ∨
      (chunk.publication.snapshot = fence.publication.snapshot ∧ chunk.endTick ≠ fence.endTick) ∨
      (chunk.publication.snapshot < fence.publication.snapshot ∧ fence.endTick < chunk.endTick) ∨
      (fence.publication.snapshot < chunk.publication.snapshot ∧ chunk.endTick < fence.endTick))

instance (chunk : GroupChunk P) (fence : GroupFence) : Decidable (conflicts chunk fence) :=
  inferInstanceAs (Decidable (_ ∧ _))

/-- The first publication comes before the second. -/
def precedes (key old : GroupPublication) : Prop :=
  key.revision < old.revision ∨ (key.revision = old.revision ∧ key.snapshot < old.snapshot)

instance (key old : GroupPublication) : Decidable (precedes key old) :=
  inferInstanceAs (Decidable (_ ∨ _))

def checkGroup [DecidableEq P] (assembler : GroupAssembler P) (chunk : GroupChunk P) (nowMs : ℕ)
    (client : ClientScopes P) : Except ReplicationError Screened :=
  let key := chunk.publication
  match assembler.fences[key.group]? with
  | none =>
    if assembler.limits.knownGroups ≤ assembler.fences.size then .error .resetRequired
    else .ok (.fresh false nowMs)
  | some fence =>
    if conflicts chunk fence then .error .conflict
    else if precedes key fence.publication then .error (.obsolete .publication)
    else if fence.receipts = none ∧ !assembler.assemblies.contains key.group then .error .expired
    else if key = fence.publication then
      match fence.receipts with
      | some receipts => acknowledge chunk client receipts
      | none =>
        if !assembler.assemblies.contains key.group then .error .expired
          else .ok (.fresh false nowMs)
    else .ok (.fresh true ((assembler.assemblies[key.group]?.map (·.startedMs)).getD nowMs))

/-- The assembly a chunk is added to; `true` when it has the chunk already. -/
def checkAssembly [DecidableEq P] (assembler : GroupAssembler P) (chunk : GroupChunk P) :
    Option (Assembly P) → Except ReplicationError Bool
  | some assembly =>
    if assembly.endTick ≠ chunk.endTick ∨ assembly.chunks.length ≠ chunk.count ∨
        assembly.manifest ≠ chunk.manifest then .error .conflict
    else match assembly.chunks[chunk.index]?.join with
      | some previous => if previous = chunk.members then .ok true else .error .conflict
      | none =>
        if assembly.members.any (fun s => s.scope ∈ chunk.members.map (·.scope))
          then .error .conflict
        else .ok false
  | none =>
    if !assembler.assemblies.contains chunk.publication.group ∧
        assembler.limits.incomplete ≤ assembler.assemblies.size then .error .capacity
    else .ok false

/-- The bytes of the group and of all groups with the chunk. -/
def charge [StateLayout P] (assembler : GroupAssembler P) (chunk : GroupChunk P) (memberBytes : ℕ)
    (existing replaced : Option (Assembly P)) : Option (ℕ × ℕ) :=
  (if existing.isNone then checkedMul 64 chunk.manifestCapacity (StateLayout.scopeIdentity P)
    else some 0).bind fun manifestBytes =>
    (checkedAdd 64 memberBytes manifestBytes).bind fun added =>
      (checkedAdd 64 ((existing.map (·.bytes)).getD 0) added).bind fun groupBytes =>
        ((checkedSub assembler.bytes ((replaced.map (·.bytes)).getD 0)).bind
          (checkedAdd 64 · added)).bind fun bytes =>
          if assembler.limits.groupBytes < groupBytes ∨ assembler.limits.stagingBytes <
            bytes then none
          else some (groupBytes, bytes)

/-! ### Staging and publication -/

/-- Each state applied once, in order, up to the first that is refused. -/
def applyAll [DecidableEq P] [Payload P] (validate : P → Bool) :
    ClientScopes P → List (FullState P) → Except ReplicationError
      (ClientScopes P × List StateReceipt)
  | client, [] => .ok (client, [])
  | client, state :: states =>
    match client.applyFull state validate with
    | (_, .error error) => .error error
    | (client, .ok receipt) =>
      (applyAll validate client states).map fun (client, receipts) => (client, receipt :: receipts)

/-- The assembly with the chunk, and the fence behind it. -/
def stage (assembler : GroupAssembler P) (chunk : GroupChunk P) (existing : Option (Assembly P))
    (startedMs groupBytes bytes : ℕ) : GroupAssembler P × Assembly P :=
  let blank : Assembly P := existing.getD
    { endTick := chunk.endTick, manifest := chunk.manifest
      chunks := List.replicate chunk.count none, startedMs, bytes := 0 }
  let assembly := { blank with
    chunks := blank.chunks.set chunk.index (some chunk.members), bytes := groupBytes }
  ({ assembler with
      assemblies := assembler.assemblies.insert chunk.publication.group assembly
      fences := assembler.fences.insert chunk.publication.group
        ⟨chunk.publication, chunk.endTick, chunk.manifest, none⟩
      bytes }, assembly)

/-- The assembly of a group is dropped. -/
def drop (assembler : GroupAssembler P) (group : ℕ) (assembly : Assembly P) : GroupAssembler P :=
  { assembler with
    assemblies := assembler.assemblies.erase group, bytes := assembler.bytes - assembly.bytes }

/-- What happens once the chunk is staged. -/
def complete [DecidableEq P] [Payload P] (assembler : GroupAssembler P) (assembly : Assembly P)
    (chunk : GroupChunk P) (client : ClientScopes P) (validate : P → Bool) :
    GroupAssembler P × ClientScopes P × Except ReplicationError GroupProgress :=
  let group := chunk.publication.group
  if assembly.chunks.any Option.isNone then (assembler, client, .ok .staged)
  else if assembly.members.length ≠ assembly.manifest.length then
    (assembler.drop group assembly, client, .error .incomplete)
  else match applyAll validate client assembly.members with
    | .error error => (assembler.drop group assembly, client, .error error)
    | .ok (client, receipts) =>
      let assembler := assembler.drop group assembly
      ({ assembler with
          fences := assembler.fences.insert group
            ⟨chunk.publication, chunk.endTick, chunk.manifest, some receipts⟩ },
        client, .ok (.published receipts))

variable [DecidableEq P] [Payload P] [StateLayout P]

/-- The part of `receive` after the assemblies past their deadline are gone. -/
def receiveChunk (assembler : GroupAssembler P) (chunk : GroupChunk P) (nowMs : ℕ)
    (client : ClientScopes P) (validate : P → Bool) :
    GroupAssembler P × ClientScopes P × Except ReplicationError GroupProgress :=
  match assembler.screen chunk client validate with
  | .error error => (assembler, client, .error error)
  | .ok memberBytes =>
    match assembler.checkGroup chunk nowMs client with
    | .error error => (assembler, client, .error error)
    | .ok (.acknowledged receipts) => (assembler, client, .ok (.published receipts))
    | .ok (.fresh replace startedMs) =>
      let found := assembler.assemblies[chunk.publication.group]?
      let existing := if replace then none else found
      match assembler.checkAssembly chunk existing with
      | .error error => (assembler, client, .error error)
      | .ok true => (assembler, client, .ok .staged)
      | .ok false =>
        match assembler.charge chunk memberBytes existing (if replace then found else none) with
        | none => (assembler, client, .error .capacity)
        | some (groupBytes, bytes) =>
          match assembler.stage chunk existing startedMs groupBytes bytes with
          | (assembler, assembly) => assembler.complete assembly chunk client validate

def receive (assembler : GroupAssembler P) (chunk : GroupChunk P) (nowMs : ℕ)
    (client : ClientScopes P) (validate : P → Bool) :
    GroupAssembler P × ClientScopes P × Except ReplicationError GroupProgress :=
  match assembler.expire nowMs with
  | .error error => (assembler, client, .error error)
  | .ok (assembler, _) => assembler.receiveChunk chunk nowMs client validate

/-! ### Published groups -/

/-- A proof that a whole publication is retained; `states` is what it yields. -/
structure PublishedGroup where
  publication : GroupPublication
  endTick : ℕ
  manifest : List ScopeIdentity
  deriving DecidableEq

/-- The states of a proof; nothing where the `expect` of the source would fail. -/
def PublishedGroup.states {P : Type} (proof : PublishedGroup) (client : ClientScopes P) :
    Option (List (FullState P)) :=
  proof.manifest.mapM fun scope => client.state scope.entity

def publishedGroup {P : Type} (assembler : GroupAssembler P) (group : ℕ) (client : ClientScopes P) :
    Option PublishedGroup :=
  if client.connection ≠ assembler.connection then none
  else assembler.fences[group]?.bind fun fence =>
    fence.receipts.bind fun receipts =>
      match fence.manifest with
      | [] => none
      | first :: _ =>
        if receipts.length ≠ fence.manifest.length then none
        else (client.state first.entity).bind fun leading =>
          if fence.manifest.all (fun scope => (client.state scope.entity).any fun state =>
              state.scope = scope ∧ state.endTick = leading.endTick ∧ state.receipt ∈ receipts) then
            some ⟨fence.publication, leading.endTick, fence.manifest⟩
          else none

end GroupAssembler
end Net
