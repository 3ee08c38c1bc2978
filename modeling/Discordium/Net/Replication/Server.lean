import Discordium.Lib.Maps
import Discordium.Net.Replication.Types

/-!
# Net — Replication — Server

One authenticated peer's sparse delivery state, as `replication/server.rs` has it.  A record per
entity index goes through the phases of `DeliveryPhase`; a policy barrier revokes every live
representation, an offer under a new identity opens a new scope.  A call answers with the new scopes
and an `Except`.
-/

namespace Net
open Lib
open Std (ExtTreeMap)

/-- The grant a graph gives for a representation. -/
structure RepresentationGrant where
  schemaId : ℕ
  revision : ℕ
  fields : ℕ
  predictionAllowed : Bool

structure EligibleEntry where
  representation : RepresentationGrant
  stateVersion : ℕ

/-- What `offer` reads of an eligible set. -/
structure EligibleSet where
  connection : ℕ
  worldRevision : ℕ
  policyRevision : ℕ
  tick : ℕ
  get : EntityId → Option EligibleEntry

def EligibleSet.isCurrent (eligible : EligibleSet) (worldRevision policyRevision : ℕ) : Bool :=
  eligible.worldRevision = worldRevision && eligible.policyRevision = policyRevision

inductive DeliveryPhase where
  | entering
  | active
  | dormantKnown
  | leaving
  | forgotten
  deriving DecidableEq

namespace DeliveryPhase

/-- `Entering | Leaving`. -/
def inTransition : DeliveryPhase → Bool
  | entering | leaving => true
  | _ => false

/-- `Leaving | Forgotten`. -/
def isGone : DeliveryPhase → Bool
  | leaving | forgotten => true
  | _ => false

end DeliveryPhase

structure Delivery (P : Type) where
  identity : ScopeIdentity
  desired : Option (FullState P)
  sent : ExtTreeMap ℕ StateReceipt
  decoded : Option StateReceipt
  dormant : Bool
  phase : DeliveryPhase
  exitSent : Bool
  destroyed : Bool

namespace Delivery
variable {P : Type}

/-- The fields every revocation of a representation clears. -/
def withdraw (record : Delivery P) : Delivery P :=
  { record with desired := none, sent := ∅, decoded := none }

def refreshPhase (record : Delivery P) : Delivery P :=
  { record with
    phase :=
      if record.decoded.isNone then .entering
      else if record.dormant && record.desired.any (fun s => some s.receipt = record.decoded) then
        .dormantKnown
      else .active }

end Delivery

structure ServerScopes (P : Type) where
  connection : ℕ
  epoch : ℕ
  worldRevision : ℕ
  policy : ℕ
  limits : ScopeLimits
  records : ExtTreeMap ℕ (Delivery P)
  nextSnapshot : ℕ
  bytes : ℕ
  resetRequired : Bool

namespace ServerScopes
variable {P : Type}

def new (connection epoch worldRevision policy : ℕ) (limits : ScopeLimits) :
    Except ReplicationError (ServerScopes P) :=
  if epoch = 0 then .error .invalidIdentity
  else limits.validate.map fun limits =>
    { connection, epoch, worldRevision, policy, limits, records := ∅, nextSnapshot := 1, bytes := 0
      resetRequired := false }

/-- The record of an entity, when the index is not held by another generation. -/
def record (server : ServerScopes P) (entity : EntityId) : Option (Delivery P) :=
  server.records[entity.index]?.filter (fun r => r.identity.entity = entity)

def phase (server : ServerScopes P) (entity : EntityId) : Option DeliveryPhase :=
  (server.record entity).map (·.phase)

def pendingTransitions (server : ServerScopes P) : ℕ :=
  ((values server.records).filter (·.phase.inTransition)).length

/-- The scopes with one record replaced. -/
def put (server : ServerScopes P) (index : ℕ) (record : Delivery P) : ServerScopes P :=
  { server with records := server.records.insert index record }

def requireReset (server : ServerScopes P) : ServerScopes P :=
  { server with
    resetRequired := true
    records := server.records.map fun _ r => { r.withdraw with phase := .forgotten }
    bytes := 0 }

/-- The record after a policy change. -/
def revoke (record : Delivery P) : Delivery P :=
  if record.phase = .forgotten then record
  else
    { record.withdraw with
      phase := if record.destroyed then .forgotten else .leaving
      exitSent := false }

def advanceBarrier (server : ServerScopes P) (worldRevision policy : ℕ) :
    ServerScopes P × Except ReplicationError Unit :=
  if server.resetRequired then (server, .error .resetRequired)
  else if worldRevision < server.worldRevision ∨ policy < server.policy then (server, .error .stale)
  else if policy ≠ server.policy then
    if server.limits.pendingTransitions <
        ((values server.records).filter (fun r => r.phase ≠ .forgotten)).length then
      (server.requireReset, .error .resetRequired)
    else
      ({ server with
          records := server.records.map fun _ r => revoke r
          bytes := 0, worldRevision, policy }, .ok ())
  else ({ server with worldRevision, policy }, .ok ())

/-! ### Offers -/

/-- Whether an offer opens a new scope over the old record. -/
def opensScope (old : Option (Delivery P)) (entity : EntityId) (representation : ℕ) : Bool :=
  old.all fun r =>
    decide (r.identity.entity ≠ entity) || decide (r.identity.representation ≠ representation)
      || r.phase.isGone

/-- The bytes retained for a desired state. -/
def desiredBytes [Payload P] (record : Option (Delivery P)) : ℕ :=
  (record.bind (·.desired)).elim 0 fun s => Payload.retainedBytes s.payload

/-- The part of `offer_projected` that publishes a new state, given the old record and whether it
opens a scope. -/
def publish [Payload P] (server : ServerScopes P) (old : Option (Delivery P)) (newScope : Bool)
    (entity : EntityId) (representation version endTick : ℕ) (dormant : Bool) (payload : P) :
    ServerScopes P × Except ReplicationError ScopeIdentity :=
  let size := Payload.retainedBytes payload
  match (checkedSub server.bytes (desiredBytes old)).bind (checkedAdd 64 · size) with
  | none => (server, .error .capacity)
  | some bytes =>
    if server.limits.payloadBytes < size ∨ server.limits.retainedPayloadBytes < bytes then
      (server, .error .capacity)
    else
      match if newScope then old.elim (some 1) (fun r => checkedNext r.identity.scope)
          else old.map (·.identity.scope), checkedNext server.nextSnapshot with
      | some scope, some nextSnapshot =>
        let identity : ScopeIdentity := ⟨server.epoch, entity, scope, representation⟩
        let state : FullState P :=
          ⟨identity, server.nextSnapshot, server.nextSnapshot, version, endTick, payload⟩
        let fresh : Delivery P := ⟨identity, some state, ∅, none, dormant, .entering, false, false⟩
        let record :=
          if newScope then fresh
          else old.elim fresh fun r =>
            Delivery.refreshPhase { r with desired := some state, dormant }
        ({ server.put entity.index record with bytes, nextSnapshot }, .ok identity)
      | _, _ => (server, .error .resetRequired)

def offerProjected [DecidableEq P] [Payload P] (server : ServerScopes P) (entity : EntityId)
    (representation version endTick : ℕ) (dormant : Bool) (payload : P) :
    ServerScopes P × Except ReplicationError ScopeIdentity :=
  if server.resetRequired then (server, .error .resetRequired)
  else if entity.generation = 0 ∨ representation = 0 ∨ version = 0 then
    (server, .error .invalidIdentity)
  else if !server.records.contains entity.index ∧ server.limits.knownEntities ≤
    server.records.size then
    (server, .error .resetRequired)
  else
    let old := server.records[entity.index]?
    if old.any (fun r => decide (entity.generation < r.identity.entity.generation) ||
        (decide (entity.generation = r.identity.entity.generation) && r.destroyed)) then
      (server, .error .stale)
    else
      let newScope := opensScope old entity representation
      if newScope ∧ old.all (fun r => !r.phase.inTransition) ∧
          server.limits.pendingTransitions ≤ server.pendingTransitions then
        (server, .error .capacity)
      else if newScope then
        server.publish old true entity representation version endTick dormant payload
      else match old, old.bind (·.desired) with
        | some r, some previous =>
          if version < previous.version ∨ endTick < previous.endTick then (server, .error .stale)
          else if version = previous.version then
            if payload ≠ previous.payload then (server, .error .conflict)
            else
              (server.put entity.index (Delivery.refreshPhase { r with dormant }), .ok r.identity)
          else server.publish old false entity representation version endTick dormant payload
        | _, _ => (server, .error .unknown)

def offer [DecidableEq P] [Payload P] (server : ServerScopes P) (eligible : EligibleSet)
    (entity : EntityId) (dormant : Bool) (project : RepresentationGrant → P) :
    ServerScopes P × Except ReplicationError ScopeIdentity :=
  if server.resetRequired then (server, .error .resetRequired)
  else if eligible.connection ≠ server.connection ∨
      !eligible.isCurrent server.worldRevision server.policy then (server, .error .unauthorized)
  else match eligible.get entity with
    | none => (server, .error .unauthorized)
    | some entry =>
      server.offerProjected entity entry.representation.revision entry.stateVersion eligible.tick
        dormant (project entry.representation)

/-! ### Transmission and receipts -/

/-- The desired state of a live record of the entity. -/
def state (server : ServerScopes P) (entity : EntityId) : Option (FullState P) :=
  (server.record entity).bind fun r => if r.phase.isGone then none else r.desired

/-- The current state still awaiting its decoded receipt. -/
def pending (server : ServerScopes P) (entity : EntityId) : Option (FullState P) :=
  (server.record entity).bind fun r =>
    if r.phase.isGone then none else r.desired.filter (fun s => some s.receipt ≠ r.decoded)

def markSent (server : ServerScopes P) (receipt : StateReceipt) :
    ServerScopes P × Except ReplicationError Unit :=
  match server.records[receipt.scope.entity.index]? with
  | none => (server, .error .unknown)
  | some record =>
    if record.identity ≠ receipt.scope ∨ record.phase.isGone ∨
        record.desired.map (·.receipt) ≠ some receipt then (server, .error .stale)
    else
      -- a late acknowledgement of a forgotten proof is ignored safely
      let sent :=
        if !record.sent.contains receipt.snapshot ∧ server.limits.sentProofsPerScope ≤
          record.sent.size
        then record.sent.minKey?.elim record.sent record.sent.erase
        else record.sent
      (server.put receipt.scope.entity.index
        { record with sent := sent.insert receipt.snapshot receipt }, .ok ())

def transmitPending (server : ServerScopes P) (entity : EntityId) (send : FullState P → Bool) :
    ServerScopes P × Except ReplicationError Bool :=
  if server.resetRequired then (server, .error .resetRequired)
  else match server.pending entity with
    | none => (server, .ok false)
    | some state =>
      if !send state then (server, .ok false)
      else match server.markSent state.receipt with
        | (server, .error error) => (server, .error error)
        | (server, .ok ()) => (server, .ok true)

def validateAcknowledgment (server : ServerScopes P) (receipt : StateReceipt) :
    Except ReplicationError (Delivery P) :=
  match server.records[receipt.scope.entity.index]? with
  | none => .error .unknown
  | some record =>
    if receipt.scope ≠ record.identity ∨ record.phase.isGone then .error .stale
    else if record.decoded = some receipt then .ok record
    else if record.sent[receipt.snapshot]? ≠ some receipt then .error .unknown
    else if record.decoded.any (fun old =>
        decide (receipt.snapshot < old.snapshot) || decide (receipt.version < old.version)) then
      .error .stale
    else .ok record

def acknowledge (server : ServerScopes P) (receipt : StateReceipt) :
    ServerScopes P × Except ReplicationError Unit :=
  match server.validateAcknowledgment receipt with
  | .error error => (server, .error error)
  | .ok record =>
    if record.decoded = some receipt then (server, .ok ())
    else
      (server.put receipt.scope.entity.index (Delivery.refreshPhase
        { record with
          decoded := some receipt
          sent := record.sent.filter fun snapshot _ => receipt.snapshot ≤ snapshot }), .ok ())

/-- Exact current full-state decode proof. -/
def decodedCurrent (server : ServerScopes P) (entity : EntityId) : Option StateReceipt :=
  (server.record entity).bind fun r =>
    (r.desired.map (·.receipt)).filter (fun receipt => r.decoded = some receipt)

/-! ### Exits and destructions -/

def exit [Payload P] (server : ServerScopes P) (entity : EntityId) :
    ServerScopes P × Except ReplicationError ScopeExit :=
  if server.resetRequired then (server, .error .resetRequired)
  else match server.record entity with
    | none => (server, .error .unknown)
    | some record =>
      if record.destroyed then (server, .error .conflict)
      else if !(record.phase.inTransition || record.phase.isGone) ∧
          server.limits.pendingTransitions ≤ server.pendingTransitions then
        (server.requireReset, .error .resetRequired)
      else if record.phase.isGone then (server, .ok ⟨record.identity⟩)
      else
        ({ server.put entity.index
            { record.withdraw with phase := .leaving, exitSent := false } with
            bytes := server.bytes - desiredBytes (some record) }, .ok ⟨record.identity⟩)

/-- The exits of the leaving records. -/
def pendingExits (server : ServerScopes P) : List ScopeExit :=
  ((values server.records).filter fun r => r.phase = .leaving && !r.destroyed).map (⟨·.identity⟩)

def markExitSent (server : ServerScopes P) (exit : ScopeExit) :
    ServerScopes P × Except ReplicationError Unit :=
  match server.records[exit.scope.entity.index]? with
  | none => (server, .error .unknown)
  | some record =>
    if record.identity ≠ exit.scope ∨ record.destroyed ∨ record.phase ≠ .leaving then
      (server, .error .stale)
    else (server.put exit.scope.entity.index { record with exitSent := true }, .ok ())

def acknowledgeExit (server : ServerScopes P) (exit : ScopeExit) :
    ServerScopes P × Except ReplicationError Unit :=
  match server.records[exit.scope.entity.index]? with
  | none => (server, .error .unknown)
  | some record =>
    if record.identity ≠ exit.scope ∨ record.destroyed ∨ !record.exitSent ∨
      !record.phase.isGone then
      (server, .error .stale)
    else (server.put exit.scope.entity.index { record with phase := .forgotten }, .ok ())

def destroy [Payload P] (server : ServerScopes P) (entity : EntityId) :
    ServerScopes P × Except ReplicationError Destroy :=
  if server.resetRequired then (server, .error .resetRequired)
  else match server.record entity with
    | none => (server, .error .unknown)
    | some record =>
      if record.destroyed then
        if record.phase = .leaving then (server, .ok ⟨server.epoch, entity⟩)
        else (server, .error .unauthorized)
      else if record.phase.isGone then (server, .error .unauthorized)
      else match server.exit entity with
        | (server, .error error) => (server, .error error)
        | (server, .ok _) =>
          ({ server with
              records := server.records.modify entity.index fun r => { r with destroyed := true } },
            .ok ⟨server.epoch, entity⟩)

/-- The destructions of the leaving records that meet a condition. -/
def destroys (server : ServerScopes P) (which : Delivery P → Bool) : List Destroy :=
  ((values server.records).filter fun r => r.phase = .leaving && r.destroyed && which r).map
    (⟨server.epoch, ·.identity.entity⟩)

def pendingDestroys (server : ServerScopes P) : List Destroy := server.destroys fun _ => true

def unsentDestroys (server : ServerScopes P) : List Destroy := server.destroys fun r => !r.exitSent

def markDestroySent (server : ServerScopes P) (destroy : Destroy) :
    ServerScopes P × Except ReplicationError Unit :=
  if destroy.connection ≠ server.epoch then (server, .error .stale)
  else match server.records[destroy.entity.index]? with
    | none => (server, .error .unknown)
    | some record =>
      if record.identity.entity ≠ destroy.entity ∨ !record.destroyed ∨ record.phase ≠ .leaving then
        (server, .error .stale)
      else (server.put destroy.entity.index { record with exitSent := true }, .ok ())

def acknowledgeDestroy (server : ServerScopes P) (destroy : Destroy) :
    ServerScopes P × Except ReplicationError Unit :=
  if destroy.connection ≠ server.epoch then (server, .error .stale)
  else match server.records[destroy.entity.index]? with
    | none => (server, .error .unknown)
    | some record =>
      if record.identity.entity ≠ destroy.entity ∨ !record.destroyed ∨ !record.exitSent then
        (server, .error .stale)
      else (server.put destroy.entity.index { record with phase := .forgotten }, .ok ())

/-- A new connection epoch of the same peer. -/
def reset (server : ServerScopes P) (epoch : ℕ) : ServerScopes P × Except ReplicationError Unit :=
  if epoch ≤ server.epoch then (server, .error .stale)
  else
    ({ server with epoch, records := ∅, bytes := 0, nextSnapshot := 1, resetRequired := false },
      .ok ())

end ServerScopes
end Net
