import Discordium.Net.Types

/-!
# Net — Replication — Types

What the scope layer and the baseline layer share: scope identities, the errors of the replication
crate, payloads with the storage they retain, and the messages a server and a client of one
connection exchange.
-/

namespace Net

/-- Full fence for a connection-local representation.  A scope exit is not death. -/
structure ScopeIdentity where
  connection : ℕ
  entity : EntityId
  scope : ℕ
  representation : ℕ
  deriving DecidableEq

inductive ObsoleteReason where
  | scope
  | publication
  | retiredBaseline
  deriving DecidableEq

inductive ReplicationError where
  | invalidConfiguration
  | invalidIdentity
  | stale
  | obsolete (reason : ObsoleteReason)
  | baselineResetPending
  | conflict
  | unauthorized
  | unknown
  | resetRequired
  | capacity
  | expired
  | incomplete
  | invalidPayload
  deriving DecidableEq

/-- The errors that call a message unknown, conflicting or malformed. -/
def ReplicationError.isRejection : ReplicationError → Bool
  | .unknown | .conflict | .invalidIdentity => true
  | _ => false

/-- Canonical representation storage; the count is of owned heap capacity. -/
class Payload (P : Type) where
  retainedBytes : P → ℕ

/-- Boxed bytes retain their length. -/
instance boxedBytes : Payload (List UInt8) := ⟨List.length⟩

/-- `validate_scope`: nothing when the scope is a well-formed one of the connection. -/
def validateScope (scope : ScopeIdentity) (connection : ℕ) : Option ReplicationError :=
  if scope.connection ≠ connection then some .stale
  else if connection = 0 ∨ scope.entity.generation = 0 ∨ scope.scope = 0 ∨
    scope.representation = 0 then
    some .invalidIdentity
  else none

theorem validateScope_eq_none {scope : ScopeIdentity} {connection : ℕ} :
    validateScope scope connection = none ↔
      scope.connection = connection ∧ connection ≠ 0 ∧ scope.entity.generation ≠ 0 ∧
        scope.scope ≠ 0 ∧ scope.representation ≠ 0 := by
  simp only [validateScope]
  split_ifs with h₁ h₂
  · simp [h₁]
  · simp only [false_iff]
    tauto
  · simp only [true_iff]
    tauto

structure ScopeLimits where
  knownEntities : ℕ
  pendingTransitions : ℕ
  retainedPayloadBytes : ℕ
  payloadBytes : ℕ
  sentProofsPerScope : ℕ

/-- `ScopeLimits::default()`. -/
def ScopeLimits.default : ScopeLimits where
  knownEntities := 8192
  pendingTransitions := 1024
  retainedPayloadBytes := 4 * 1024 * 1024
  payloadBytes := 16384
  sentProofsPerScope := 8

/-- `ScopeLimits::validate`. -/
def ScopeLimits.validate (limits : ScopeLimits) : Except ReplicationError ScopeLimits :=
  if limits.knownEntities = 0 ∨ limits.pendingTransitions = 0 ∨ limits.payloadBytes = 0
      ∨ limits.retainedPayloadBytes < limits.payloadBytes ∨ limits.sentProofsPerScope = 0 then
    .error .invalidConfiguration
  else .ok limits

/-- Decode and retention proof, distinct from a transport receipt. -/
structure StateReceipt where
  scope : ScopeIdentity
  baselineGeneration : ℕ
  snapshot : ℕ
  version : ℕ
  deriving DecidableEq

/-- A complete canonical state under one exact incarnation. -/
structure FullState (P : Type) where
  scope : ScopeIdentity
  baselineGeneration : ℕ
  snapshot : ℕ
  version : ℕ
  endTick : ℕ
  payload : P
  deriving DecidableEq

structure ScopeExit where
  scope : ScopeIdentity
  deriving DecidableEq

structure Destroy where
  connection : ℕ
  entity : EntityId
  deriving DecidableEq

namespace FullState
variable {P : Type}

def receipt (state : FullState P) : StateReceipt :=
  ⟨state.scope, state.baselineGeneration, state.snapshot, state.version⟩

/-- `validate_identity`: nothing when the state names a well-formed publication of the
connection. -/
def validateIdentity (state : FullState P) (connection : ℕ) : Option ReplicationError :=
  match validateScope state.scope connection with
  | some error => some error
  | none =>
    if state.baselineGeneration = 0 ∨ state.snapshot = 0 ∨ state.version = 0 then
      some .invalidIdentity
    else none

end FullState
end Net
