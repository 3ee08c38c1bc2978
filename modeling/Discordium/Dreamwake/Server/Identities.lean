import Discordium.Lib.Triples
import Discordium.Net.Types

/-!
# Dreamwake — Server — Identities

The network identities of `replication.rs`.  A key of the simulation holds one entity identity; an
identity that a capture no longer has is retired, and its index goes on with a newer generation,
under the same key or, for an actor, under another one.  A call that fails keeps what it has done so
far, so the calls are computations over a state that survives an error.

What the graph and the scopes of the peers answer on the way is part of a call, since they hold no
identities of their own.  The `history` is a history variable: it records the identities given and
retired, and nothing reads it.
-/

namespace Dreamwake
open Net Lib
open Std (ExtTreeMap ExtTreeSet)

/-! ### Keys -/

@[ext] structure GraphicsScope where
  sourceEpoch : ℕ
  stream : ℕ
  controlEpoch : ℕ
  generation : ℕ
  deriving DecidableEq

structure GraphicsId where
  scope : Option GraphicsScope
  matchEpoch : ℕ
  owner : ℕ
  actionSeq : ℕ
  slot : ℕ
  deriving DecidableEq

def GraphicsId.path (id : GraphicsId) : List ℕ :=
  [id.matchEpoch, id.owner, id.actionSeq, id.slot] ++
    id.scope.elim [] fun scope => [scope.sourceEpoch, scope.stream, scope.controlEpoch,
      scope.generation]

theorem GraphicsId.path_injective : Function.Injective GraphicsId.path := by
  rintro ⟨_ | scope, _, _, _, _⟩ ⟨_ | scope', _, _, _, _⟩ h <;>
    simp_all [path, GraphicsScope.ext_iff]

/-- The actors of a committed capture. -/
inductive ReplicationKey where
  | hero (id : ℕ)
  | enemy (id : ℕ)
  | cover (id : ℕ)
  | coverMarker (id : ℕ)
  | platform (id : ℕ)
  | projectile (id : ℕ)
  | wisp (id : ℕ)
  | effect (id : GraphicsId)
  | damage (id : ℕ)
  deriving DecidableEq

def ReplicationKey.path : ReplicationKey → List ℕ
  | .hero id => [0, id]
  | .enemy id => [1, id]
  | .cover id => [2, id]
  | .coverMarker id => [3, id]
  | .platform id => [4, id]
  | .projectile id => [5, id]
  | .wisp id => [6, id]
  | .effect id => 7 :: id.path
  | .damage id => [8, id]

theorem ReplicationKey.path_injective : Function.Injective ReplicationKey.path := by
  intro a b h
  cases a <;> cases b <;> simp [path] at h
  case effect.effect => rw [GraphicsId.path_injective h]
  all_goals rw [h]

/-- What holds an identity. -/
inductive Key where
  | global
  | collision
  | owner (player : ℕ)
  | actor (key : ReplicationKey)
  deriving DecidableEq

namespace Key

def path : Key → List ℕ
  | global => [0]
  | collision => [1]
  | owner player => [2, player]
  | actor key => 3 :: key.path

theorem path_injective : Function.Injective path := by
  intro a b h
  cases a <;> cases b <;> simp [path] at h
  case owner.owner => rw [h]
  case actor.actor => rw [ReplicationKey.path_injective h]
  all_goals rfl

instance : Ord Key := ⟨compareOn path⟩

instance : Std.TransOrd Key := inferInstanceAs (Std.TransCmp (compareOn path))

instance : Std.LawfulEqOrd Key := lawfulEqCmp_compareOn path_injective

def isActor : Key → Bool
  | actor _ => true
  | _ => false

end Key

/-- The map identity of a collider. -/
structure ColliderKey where
  index : ℕ
  generation : ℕ

namespace ColliderKey

def path (key : ColliderKey) : List ℕ := [key.index, key.generation]

instance : Ord ColliderKey := ⟨compareOn path⟩

instance : Std.TransOrd ColliderKey := inferInstanceAs (Std.TransCmp (compareOn path))

end ColliderKey

/-! ### Allocation -/

structure AdapterError where
  text : String

/-- The error of a debug text. -/
def adapterError (text : String) : AdapterError := ⟨"replication adapter: " ++ text⟩

/-- The error of a message, whose debug text is quoted. -/
def adapterFault (message : String) : AdapterError := adapterError ("\"" ++ message ++ "\"")

/-- What happened to an identity. -/
inductive IdentityEvent where
  | gave (key : Key) (entity : EntityId)
  | retired (entity : EntityId)
  deriving DecidableEq

structure DreamReplication where
  epoch : ℕ
  ids : ExtTreeMap Key EntityId
  keys : ExtTreeMap EntityId Key
  present : ExtTreeSet EntityId
  retired : ExtTreeSet EntityId
  maxIdentities : ℕ
  /-- The identities given and retired, newest first. -/
  history : List IdentityEvent

namespace DreamReplication

/-- A call on the adapter, which keeps what it has done when it fails. -/
abbrev Call (α : Type) := EStateM AdapterError DreamReplication α

/-- `with_compression`; the radius and the limits of the graph are valid. -/
def withCompression (epoch maxEntities : ℕ) : Except AdapterError DreamReplication :=
  if epoch = 0 then .error (adapterFault "invalid match/cull radius")
  else .ok
    { epoch, ids := ∅, keys := ∅, present := ∅, retired := ∅
      maxIdentities := min maxEntities 8192, history := [] }

/-- The same index with the next generation: nothing when the 32 bits are used up. -/
def successor (old : EntityId) : Option EntityId :=
  (checkedAdd 32 old.generation 1).map fun generation => ⟨old.index, generation⟩

/-- The first retired identity that an actor holds. -/
def spare (s : DreamReplication) : Option EntityId :=
  s.retired.toList.find? fun id => s.keys[id]?.any Key.isActor

/-- An answer of `identity`, which is recorded. -/
def given (s : DreamReplication) (key : Key) (id : EntityId) :
    EStateM.Result AdapterError DreamReplication EntityId :=
  .ok id { s with history := .gave key id :: s.history }

def identity (key : Key) : Call EntityId := fun s =>
  match s.ids[key]? with
  | some old =>
    if s.retired.contains old then
      let s := { s with retired := s.retired.erase old }
      match successor old with
      | none => .error (adapterFault "entity generation exhausted") s
      | some id =>
        given { s with ids := s.ids.insert key id, keys := (s.keys.erase old).insert id key } key id
    else s.given key old
  | none =>
    match s.spare with
    | some old =>
      match successor old with
      | none => .error (adapterFault "entity generation exhausted") s
      | some id =>
        match s.keys[old]? with
        | none => .error (adapterFault "missing retired identity") s
        | some previousKey =>
          given { s with
            ids := (s.ids.erase previousKey).insert key id
            keys := (s.keys.erase old).insert id key
            retired := s.retired.erase old } key id
    | none =>
      if s.maxIdentities ≤ s.ids.size then
        .error (adapterFault "match identity capacity requires reset") s
      else
        let id : EntityId := ⟨s.ids.size + 1, s.epoch⟩
        given { s with ids := s.ids.insert key id, keys := s.keys.insert id key } key id

def reserveOwner (owner : ℕ) : Call (EntityId × EntityId × EntityId) := do
  refuse (adapterFault "invalid owner") (owner = 0)
  let global ← identity .global
  let entity ← identity (.owner owner)
  let collision ← identity .collision
  return (global, entity, collision)

def reserveProjectileIdentity (id : ℕ) : Call EntityId := do
  let entity ← identity (.actor (.projectile id))
  modify fun s => { s with present := s.present.insert entity }
  return entity

/-! ### Captures -/

/-- What the identities depend on in a committed capture. -/
structure CommittedReplication where
  matchEpoch : ℕ
  sceneRevision : ℕ
  /-- The scene of the collision manifest, and whether its identity is that of the advertised
  content. -/
  collisionScene : ℕ
  collisionCurrent : Bool
  keys : List ReplicationKey
  /-- Whether an actor has a position. -/
  position : ReplicationKey → Bool
  /-- The collider of a platform that can be projected. -/
  platform : ℕ → Option ColliderKey
  requiredBases : ℕ → List ColliderKey
  reservedProjectiles : List (ℕ × ℕ)

/-- A call to `prepare` with what it meets outside of the identities: the players of the peers, and
the errors of the graph and the scopes. -/
structure Prepare where
  capture : CommittedReplication
  activeOwners : List ℕ
  players : List ℕ
  /-- The graph refuses the registration of an entity. -/
  upsert : EntityId → Option AdapterError
  /-- The graph or a scope refuses the removal of an entity. -/
  remove : EntityId → Option AdapterError
  /-- The graph refuses a connection, the frame or a gathering. -/
  gather : Option AdapterError

/-- An error that is raised when there is one. -/
def raise (fault : Option AdapterError) : Call Unit :=
  match fault with
  | none => pure ()
  | some error => throw error

namespace Prepare
variable (p : Prepare)

/-- The active owners, in order and once each. -/
def owners : ExtTreeSet ℕ := .ofList p.activeOwners

/-- Whether an owner has a hero in the capture. -/
def hasHero (owner : ℕ) : Bool := p.capture.position (.hero owner)

/-- The keys that are registered with the graph, in order. -/
def registrations : List Key :=
  [.global, .collision] ++
    (p.owners.toList.filter fun owner => owner ∈ p.players && p.hasHero owner).map Key.owner ++
    (p.capture.keys.filter p.capture.position).map Key.actor

/-- The heroes and enemies of the capture. -/
def sources : List ℕ :=
  p.capture.keys.filterMap fun key =>
    match key with
    | .hero id | .enemy id => some id
    | _ => none

/-- `ApprovedSources::new` on the remaining ids, after `count` of them. -/
def checkSources : ℕ → List ℕ → Call Unit
  | _, [] => pure ()
  | count, id :: ids => do
    refuse (adapterError "BudgetExceeded") (4096 ≤ count)
    refuse (adapterError "InvalidIdentity") (id = 0)
    checkSources (count + 1) ids

/-- The checks before the first identity. -/
def checkStamp : Call Unit := do
  let s ← get
  refuse (adapterFault "wrong match epoch") (p.capture.matchEpoch ≠ s.epoch)
  refuse (adapterError "TryFromIntError(())") (wordMax 32 < p.capture.sceneRevision)
  refuse (adapterFault "collision content differs from advertised ready scene")
    (p.capture.collisionScene ≠ p.capture.sceneRevision ∨ !p.capture.collisionCurrent)

/-- One round of the loop over the platforms. -/
def platformRound (platforms : ExtTreeMap ColliderKey EntityId) (key : ReplicationKey) :
    Call (ExtTreeMap ColliderKey EntityId) :=
  match key with
  | .platform id =>
    match p.capture.platform id with
    | none => pure platforms
    | some collider => do
      let entity ← identity (.actor key)
      refuse (adapterFault "duplicate platform collider identity") (platforms.contains collider)
      return platforms.insert collider entity
  | _ => pure platforms

/-- One round of the loop over the bases of the owners. -/
def checkBases (platforms : ExtTreeMap ColliderKey EntityId) (owner : ℕ) : Call Unit := do
  refuse (adapterFault "owner base dependency capacity")
    (1 < (p.capture.requiredBases owner).length)
  refuse (adapterFault "missing required platform")
    (¬ (p.capture.requiredBases owner).all platforms.contains)

/-- The owner identities that stay alive through a handshake. -/
def keptOwners (s : DreamReplication) : ExtTreeSet EntityId :=
  .ofList (((p.owners.toList.filter p.hasHero).filterMap fun owner =>
    s.ids[Key.owner owner]?).filter
    s.present.contains)

/-- One round of the loop over the reserved projectiles. -/
def reserveRound (present : ExtTreeSet EntityId) (reservation : ℕ × ℕ) :
    Call (ExtTreeSet EntityId) := do
  refuse (adapterFault "invalid reserved projectile") (reservation.1 = 0 ∨ reservation.2 = 0)
  let id ← identity (.actor (.projectile reservation.2))
  return present.insert id

/-- One round of the loop over the registrations. -/
def registerRound (present : ExtTreeSet EntityId) (key : Key) : Call (ExtTreeSet EntityId) := do
  let id ← identity key
  raise (p.upsert id)
  return present.insert id

/-- One round of the loop over the identities that are gone. -/
def retireRound (id : EntityId) : Call Unit := do
  modify fun s => { s with retired := s.retired.insert id, history := .retired id :: s.history }
  raise (p.remove id)

/-- The identities of a capture are given; the answer is the set of those that are present. -/
def giveAll : Call (ExtTreeSet EntityId) := do
  let _ ← identity .collision
  let s ← get
  refuse (adapterFault "capture entity capacity") (s.maxIdentities < p.registrations.length)
  checkSources 0 p.sources
  let platforms ← p.capture.keys.foldlM p.platformRound ∅
  p.owners.toList.forM (p.checkBases platforms)
  let s ← get
  refuse (adapterFault "reserved projectile identity capacity")
    (s.maxIdentities < p.capture.reservedProjectiles.length)
  let present ← p.capture.reservedProjectiles.foldlM reserveRound (p.keptOwners s)
  p.registrations.foldlM p.registerRound present

/-- The identities that are gone are retired. -/
def retireAll (present : ExtTreeSet EntityId) : Call Unit := do
  let s ← get
  (s.present.toList.filter fun id => !present.contains id).forM p.retireRound
  modify fun s => { s with present }

end Prepare

def prepare (p : Prepare) : Call Unit := do
  p.checkStamp
  let present ← p.giveAll
  p.retireAll present
  raise p.gather

end DreamReplication
end Dreamwake
