import Discordium.Net.Replication.Types

/-!
# Net — Replication — Client

Sparse state and high-water fences per entity index, as `replication/client.rs` has them.  A full
state, an exit and a destruction each either replace the record of their index or leave the scopes
as they were.
-/

namespace Net
open Lib
open Std (ExtTreeMap)

structure Replica (P : Type) where
  scope : ScopeIdentity
  closed : Bool
  destroyed : Bool
  state : Option (FullState P)

/-- Read-only identity and publication metadata of a record. -/
structure ReplicaFence where
  scope : ScopeIdentity
  closed : Bool
  destroyed : Bool
  publication : Option (StateReceipt × ℕ)

structure ClientScopes (P : Type) where
  connection : ℕ
  limits : ScopeLimits
  records : ExtTreeMap ℕ (Replica P)
  bytes : ℕ

namespace ClientScopes
variable {P : Type}

def new (connection : ℕ) (limits : ScopeLimits) : Except ReplicationError (ClientScopes P) :=
  if connection = 0 then .error .invalidIdentity
  else limits.validate.map fun limits => { connection, limits, records := ∅, bytes := 0 }

def fence (client : ClientScopes P) (entityIndex : ℕ) : Option ReplicaFence :=
  client.records[entityIndex]?.map fun r =>
    ⟨r.scope, r.closed, r.destroyed, r.state.map fun s => (s.receipt, s.endTick)⟩

def state (client : ClientScopes P) (entity : EntityId) : Option (FullState P) :=
  (client.records[entity.index]?.bind (·.state)).filter (fun s => s.scope.entity = entity)

/-- `capacity_for`: nothing when the index is known or there is room for it. -/
def capacityFor (client : ClientScopes P) (index : ℕ) : Option ReplicationError :=
  if !client.records.contains index ∧ client.limits.knownEntities ≤ client.records.size then
    some .resetRequired
  else none

/-- The bytes the published state of a record retains. -/
def publishedBytes [Payload P] (replica : Option (Replica P)) : ℕ :=
  (replica.bind (·.state)).elim 0 fun s => Payload.retainedBytes s.payload

/-- The watermarks of an open scope against one more state of it. -/
def checkPublication [DecidableEq P] (state previous : FullState P) : Option ReplicationError :=
  if state.snapshot = previous.snapshot ∧ state ≠ previous then some .conflict
  else if state.version = previous.version ∧ state.payload ≠ previous.payload then some .conflict
  else if state.snapshot < previous.snapshot ∧
      state.baselineGeneration ≤ previous.baselineGeneration ∧ state.version ≤ previous.version ∧
      state.endTick ≤ previous.endTick then some (.obsolete .publication)
  -- a newer snapshot cannot move any watermark backward, nor an older one claim newer metadata
  else if state.baselineGeneration < previous.baselineGeneration ∨
    state.snapshot < previous.snapshot ∨
      state.version < previous.version ∨ state.endTick < previous.endTick then some .conflict
  else none

/-- The fences of the record of an index against one more state. -/
def checkFence [DecidableEq P] (state : FullState P) (old : Replica P) : Option ReplicationError :=
  if state.scope.entity.generation < old.scope.entity.generation then some (.obsolete .scope)
  else if state.scope.entity.generation = old.scope.entity.generation then
    if old.destroyed ∨ state.scope.scope < old.scope.scope then some (.obsolete .scope)
    else if state.scope.scope = old.scope.scope then
      if state.scope ≠ old.scope then some .conflict
      else if old.closed then some (.obsolete .scope)
      else old.state.bind (checkPublication state)
    else none
  else none

def applyFull [DecidableEq P] [Payload P] (client : ClientScopes P) (state : FullState P)
    (validate : P → Bool) : ClientScopes P × Except ReplicationError StateReceipt :=
  match state.validateIdentity client.connection with
  | some error => (client, .error error)
  | none =>
    let index := state.scope.entity.index
    match client.capacityFor index with
    | some error => (client, .error error)
    | none =>
      let size := Payload.retainedBytes state.payload
      if client.limits.payloadBytes < size then (client, .error .capacity)
      else if !validate state.payload then (client, .error .invalidPayload)
      else
        let old := client.records[index]?
        match old.bind (checkFence state) with
        | some error => (client, .error error)
        | none =>
          match (checkedSub client.bytes (publishedBytes old)).bind (checkedAdd 64 · size) with
          | none => (client, .error .capacity)
          | some bytes =>
            if client.limits.payloadBytes < size ∨ client.limits.retainedPayloadBytes < bytes then
              (client, .error .capacity)
            else
              ({ client with
                  records := client.records.insert index ⟨state.scope, false, false, some state⟩
                  bytes }, .ok state.receipt)

/-- A fence that replaces the record of an index and what it published. -/
def close [Payload P] (client : ClientScopes P) (index : ℕ) (replica : Replica P) :
    ClientScopes P :=
  { client with
    records := client.records.insert index replica
    bytes := client.bytes - publishedBytes client.records[index]? }

/-- What an exit finds already fenced: its acknowledgement or a conflict. -/
def checkExit (exit : ScopeExit) (old : Replica P) : Option (Except ReplicationError ScopeExit) :=
  let generation := exit.scope.entity.generation
  let oldGeneration := old.scope.entity.generation
  if generation < oldGeneration ∨ (generation = oldGeneration ∧
    exit.scope.scope < old.scope.scope) then
    some (.ok exit)
  else if generation = oldGeneration ∧ exit.scope.scope = old.scope.scope ∧
    exit.scope ≠ old.scope then
    some (.error .conflict)
  else if old.destroyed ∧ generation = oldGeneration then some (.ok exit)
  else none

def applyExit [Payload P] (client : ClientScopes P) (exit : ScopeExit) :
    ClientScopes P × Except ReplicationError ScopeExit :=
  match validateScope exit.scope client.connection with
  | some error => (client, .error error)
  | none =>
    let index := exit.scope.entity.index
    match client.capacityFor index with
    | some error => (client, .error error)
    | none =>
      match client.records[index]?.bind (checkExit exit) with
      | some answer => (client, answer)
      | none => (client.close index ⟨exit.scope, true, false, none⟩, .ok exit)

/-- The scope under which a destruction is recorded. -/
def destroyScope (destroy : Destroy) : ScopeIdentity := ⟨destroy.connection, destroy.entity, 1, 1⟩

def applyDestroy [Payload P] (client : ClientScopes P) (destroy : Destroy) :
    ClientScopes P × Except ReplicationError Destroy :=
  if destroy.connection ≠ client.connection then (client, .error .stale)
  else if destroy.entity.generation = 0 then (client, .error .invalidIdentity)
  else
    let index := destroy.entity.index
    match client.capacityFor index with
    | some error => (client, .error error)
    | none =>
      if client.records[index]?.any
          (fun r => decide (destroy.entity.generation < r.scope.entity.generation)) then
        (client, .ok destroy)
      else (client.close index ⟨destroyScope destroy, true, true, none⟩, .ok destroy)

def reset (client : ClientScopes P) (connection : ℕ) :
    ClientScopes P × Except ReplicationError Unit :=
  if connection ≤ client.connection then (client, .error .stale)
  else ({ client with connection, records := ∅, bytes := 0 }, .ok ())

end ClientScopes
end Net
