import Discordium.Lib.Fallible
import Discordium.Net.Replication.Audience

/-!
# Dreamwake — Simulation — Capture

The committed capture of `replication/capture.rs` and its projections: what one connection is told
of a hero, an enemy, a projectile, a wisp, an effect, a damage number, a cover or a platform.  A
projection names a projectile's or wisp's owner only if that source is approved for the connection;
an effect's own identity contains its source, so an effect of a hidden source is not projected at
all, and its event is at most shown as an anonymous pulse in a coarse cell.

Floats are opaque: a type with the operations the projections use.  The saved actors have the fields
the projections read.
-/

namespace Dreamwake.Simulation
open Lib Net

/-! ### Values -/

/-- The operations on single-precision floats that projections use. -/
class Floats (F : Type) where
  /-- A literal of the source. -/
  lit : ℚ → F
  /-- `as f32` on an integer. -/
  ofInt : ℤ → F
  /-- `as i32`. -/
  toInt : F → ℤ
  add : F → F → F
  sub : F → F → F
  mul : F → F → F
  div : F → F → F
  sin : F → F
  cos : F → F
  abs : F → F
  floor : F → F
  isFinite : F → Bool
  lt : F → F → Bool
  /-- The table of yaw sines and cosines of a platform, by phase. -/
  yaw : ℕ → F × F

open Floats

/-- The incarnation of the input source of an effect. -/
structure GraphicsScope where
  sourceEpoch : ℕ
  stream : ℕ
  controlEpoch : ℕ
  generation : ℕ
  deriving DecidableEq

/-- The identity of an effect; it contains its source. -/
structure GraphicsId where
  scope : Option GraphicsScope
  matchEpoch : ℕ
  owner : ℕ
  actionSeq : ℕ
  slot : ℕ
  deriving DecidableEq

inductive GraphicsKind (F : Type) where
  | radialPulse
  | orb (elevation : F)
  | beam (direction : F × F × F) (elevation length : F)
  deriving DecidableEq

/-- An effect as the server has it. -/
structure GraphicsInstance (F : Type) where
  id : GraphicsId
  kind : GraphicsKind F
  pos : F × F
  radius : F
  ageTicks : ℕ
  durationTicks : ℕ

inductive Stance where
  | standing
  | crouched
  deriving DecidableEq

inductive EssenceKind where
  | twin | echo | vast | frost | leech | haste
  deriving DecidableEq

inductive EnemyKind where
  | melee | ranged | ambusher | support | elite | boss
  deriving DecidableEq

/-! ### Saved actors -/

/-- A hero's capsule; the position is that of its foot, with the second coordinate up. -/
structure KinematicState (F : Type) where
  position : F × F × F
  velocity : F × F × F
  facing : F × F
  stance : Stance
  dashTicks : ℕ

/-- The position on the ground. -/
def planarPosition {F : Type} (motion : KinematicState F) : F × F :=
  (motion.position.1, motion.position.2.2)

/-- The velocity along the ground. -/
def planarVelocity {F : Type} (motion : KinematicState F) : F × F :=
  (motion.velocity.1, motion.velocity.2.2)

structure Health (F : Type) where
  hp : F
  maxHp : F

structure TimedStatus (F : Type) where
  id : ℕ
  remaining : F

/-- What protects an actor, and the statuses on it. -/
structure CombatState (F : Type) where
  shield : F
  invulnerabilityRemaining : F
  statuses : List (TimedStatus F)

/-- A hero's identity and appearance. -/
structure HeroBody (F : Type) where
  id : ℕ
  color : ℕ × ℕ × ℕ
  combo : ℕ
  hitFlash : F
  attackFlash : F

/-- A hero as captured. -/
structure SavedHero (F : Type) where
  view : HeroBody F
  active : Bool
  health : Health F
  combat : CombatState F
  motion : KinematicState F
  level : ℕ

/-- An enemy's identity, appearance and boss phase. -/
structure EnemyBody (F : Type) where
  id : ℕ
  kind : EnemyKind
  warnRadius : F
  phase : ℕ
  hitFlash : F

structure MotorState (F : Type) where
  position : F × F
  facing : F × F
  velocity : F × F

/-- Where an enemy will strike, and in how long. -/
structure ActionState (F : Type) where
  target : F × F
  windup : F

/-- An enemy as captured. -/
structure SavedEnemy (F : Type) where
  view : EnemyBody F
  health : Health F
  combat : CombatState F
  motor : MotorState F
  action : ActionState F

/-- The continuity segment and the tick of a collider. -/
structure CombatIdentity where
  segment : ℕ
  tick : ℕ

/-- A cover; when it opens or closes next is the server's own. -/
structure SavedCover (F : Type) where
  id : ℕ
  markerId : ℕ
  groundPosition : F × F
  present : Bool
  identity : CombatIdentity
  isOpen : Bool
  nextTransitionTick : ℕ

structure ColliderKey where
  index : ℕ
  generation : ℕ
  deriving DecidableEq

/-- A moving platform; its pose is a function of its phase. -/
structure Platform where
  id : ℕ
  collider : ColliderKey
  motionRevision : ℕ
  originGameplayTick : ℕ
  gameplayTick : ℕ
  phase : ℕ

/-- A projectile as captured, with the hero or enemy that shot it. -/
structure SavedProjectile (F : Type) where
  id : ℕ
  owner : ℕ
  faction : ℕ
  position : F × F
  direction : F × F
  speed : F
  remaining : F
  radius : F
  maxDistance : Option F
  essence : Option EssenceKind

/-- A wisp as captured; it circles its owner. -/
structure SavedWisp (F : Type) where
  id : ℕ
  owner : ℕ
  position : F × F
  remaining : F
  orbitAngle : F
  orbitRadius : F
  orbitSpeed : F
  essence : Option EssenceKind

/-- A number shown where damage was dealt. -/
structure DamageNumber (F : Type) where
  id : ℕ
  position : F × F
  amount : F
  critical : Bool
  friendly : Bool
  age : F

/-- All actors of a capture. -/
structure CapturedState (F : Type) where
  heroes : List (SavedHero F)
  enemies : List (SavedEnemy F)
  covers : List (SavedCover F)
  platforms : List Platform
  projectiles : List (SavedProjectile F)
  wisps : List (SavedWisp F)
  effects : List (GraphicsInstance F)
  numbers : List (DamageNumber F)

/-- The time of a capture, on the clock of the server and on that of the game. -/
structure ReplicationStamp where
  matchEpoch : ℕ
  serverTick : ℕ
  gameplayTick : ℕ
  sceneRevision : ℕ
  revision : ℕ

/-- A stamp of a match, a scene and a capture. -/
def ReplicationStamp.valid (stamp : ReplicationStamp) : Bool :=
  stamp.matchEpoch ≠ 0 ∧ stamp.sceneRevision ≠ 0 ∧ stamp.revision ≠ 0

/-! ### Public views -/

/-- A hero's public pose and health, and what can be seen of its actions. -/
structure PublicHeroView (F : Type) where
  id : ℕ
  color : ℕ × ℕ × ℕ
  position : F × F
  elevation : F
  crouched : Bool
  facing : F × F
  velocity : F × F
  hp : F
  maxHp : F
  shield : F
  level : ℕ
  invulnerable : Bool
  dashing : Bool
  combo : ℕ
  hitFlash : F
  attackFlash : F
  deriving DecidableEq

/-- An enemy's public pose and health, and the warning it gives. -/
structure PublicEnemyView (F : Type) where
  id : ℕ
  position : F × F
  facing : F × F
  velocity : F × F
  hp : F
  maxHp : F
  kind : EnemyKind
  windup : F
  target : F × F
  warnRadius : F
  phase : ℕ
  slowed : Bool
  hitFlash : F
  deriving DecidableEq

/-- A projectile without its source, unless that is disclosed too. -/
structure PublicProjectileView (F : Type) where
  id : ℕ
  /-- Omitted when the source is not separately disclosed to the connection. -/
  owner : Option ℕ
  position : F × F
  direction : F × F
  speed : F
  remaining : F
  maxDistance : Option F
  radius : F
  friendly : Bool
  essence : Option EssenceKind
  deriving DecidableEq

/-- A wisp without its source, unless that is disclosed too. -/
structure PublicWispView (F : Type) where
  id : ℕ
  owner : Option ℕ
  position : F × F
  velocity : F × F
  remaining : F
  essence : Option EssenceKind
  deriving DecidableEq

structure PublicEffectView (F : Type) where
  /-- An anonymous proxy has owner 0. -/
  id : GraphicsId
  kind : GraphicsKind F
  position : F × F
  radius : F
  ageTicks : ℕ
  durationTicks : ℕ
  deriving DecidableEq

structure PublicDamageView (F : Type) where
  id : ℕ
  position : F × F
  amount : F
  critical : Bool
  friendly : Bool
  age : F
  deriving DecidableEq

/-- A cover as it stands. -/
structure PublicCoverView (F : Type) where
  id : ℕ
  revision : ℕ
  present : Bool
  position : F × F × F
  halfExtents : F × F × F
  isOpen : Bool
  deriving DecidableEq

/-- The pose and motion of what can be stood on. -/
structure BasePose (F : Type) where
  position : F × F × F
  rotation : F × F × F × F
  linearVelocity : F × F × F
  angularVelocity : F × F × F
  deriving DecidableEq

/-- A platform's pose, and where its motion started. -/
structure PublicPlatformView (F : Type) where
  id : ℕ
  collider : ColliderKey
  sceneRevision : ℕ
  motionRevision : ℕ
  originGameplayTick : ℕ
  gameplayTick : ℕ
  phase : ℕ
  pose : BasePose F
  halfExtents : F × F × F
  deriving DecidableEq

/-- The payloads a peer is sent.  Cover markers have a payload too, but `project` never makes one:
the connection's adapter does. -/
inductive PublicReplica (F : Type) where
  | hero (view : PublicHeroView F)
  | enemy (view : PublicEnemyView F)
  | projectile (view : PublicProjectileView F)
  | wisp (view : PublicWispView F)
  | effect (view : PublicEffectView F)
  | damage (view : PublicDamageView F)
  | cover (view : PublicCoverView F)
  | platform (view : PublicPlatformView F)
  deriving DecidableEq

/-! ### Captures -/

/-- The keys of committed actors, on the server only: an effect's key may contain a hidden
source. -/
inductive ReplicationKey where
  | hero (id : ℕ)
  | enemy (id : ℕ)
  | cover (id : ℕ)
  | coverMarker (id : ℕ)
  | platform (id : ℕ)
  | projectile (id : ℕ)
  | wisp (id : ℕ)
  | effect (id : GraphicsId)
  | damage (id : ℕ)
  deriving DecidableEq

/-- The sources the connection's graph policy permits. -/
structure ApprovedSources where
  ids : Finset ℕ

/-- Whether a source may be named. -/
def ApprovedSources.allows (sources : ApprovedSources) (id : ℕ) : Bool := id ∈ sources.ids

/-- The keys of a list of actors, with their places in it. -/
def placed {α : Type} (key : α → ReplicationKey) (actors : List α) : List (ReplicationKey × ℕ) :=
  (actors.map key).zipIdx

/-- What `capture_replication` enters into its index, in order. -/
def CapturedState.entries {F : Type} (state : CapturedState F) : List (ReplicationKey × ℕ) :=
  placed (fun hero => .hero hero.view.id) state.heroes ++
  placed (fun enemy => .enemy enemy.view.id) state.enemies ++
  placed (fun platform => .platform platform.id) state.platforms ++
  state.covers.zipIdx.flatMap (fun (cover, i) => [(.cover cover.id, i),
    (.coverMarker cover.markerId, i)]) ++
  placed (fun projectile => .projectile projectile.id) state.projectiles ++
  placed (fun wisp => .wisp wisp.id) state.wisps ++
  placed (fun effect => .effect effect.id) state.effects ++
  placed (fun number => .damage number.id) state.numbers

/-- One committed authority capture, for all peers. -/
structure CommittedReplication (F : Type) where
  stamp : ReplicationStamp
  state : CapturedState F

namespace CommittedReplication
variable {F : Type}

/-- The place of a key, by the index: a later entry replaces an earlier one. -/
def place (capture : CommittedReplication F) (key : ReplicationKey) : Option ℕ :=
  capture.state.entries.reverse.lookup key

end CommittedReplication

/-! ### Projections -/

variable {F : Type} [Floats F]

/-- What everyone sees of a hero. -/
def publicHero (hero : SavedHero F) : PublicHeroView F where
  id := hero.view.id
  color := hero.view.color
  position := planarPosition hero.motion
  elevation := hero.motion.position.2.1
  crouched := hero.motion.stance = .crouched
  facing := hero.motion.facing
  velocity := planarVelocity hero.motion
  hp := hero.health.hp
  maxHp := hero.health.maxHp
  shield := hero.combat.shield
  level := hero.level
  invulnerable :=
    lt (lit 0) hero.combat.invulnerabilityRemaining || decide (0 < hero.motion.dashTicks)
  dashing := decide (0 < hero.motion.dashTicks) && lt (lit 0) hero.health.hp
  combo := hero.view.combo
  hitFlash := hero.view.hitFlash
  attackFlash := hero.view.attackFlash

/-- An enemy's target and warning circle are public while it winds up. -/
def publicEnemy (enemy : SavedEnemy F) : PublicEnemyView F where
  id := enemy.view.id
  position := enemy.motor.position
  facing := enemy.motor.facing
  velocity := enemy.motor.velocity
  hp := enemy.health.hp
  maxHp := enemy.health.maxHp
  kind := enemy.view.kind
  windup := enemy.action.windup
  target := if lt (lit 0) enemy.action.windup then enemy.action.target else enemy.motor.position
  warnRadius := if lt (lit 0) enemy.action.windup then enemy.view.warnRadius else lit 0
  phase := enemy.view.phase
  -- `FROST_STATUS`
  slowed := (enemy.combat.statuses.find? fun status => status.id = 1 &&
    lt (lit 0) status.remaining).isSome
  hitFlash := enemy.view.hitFlash

def coverTravelTicks : ℕ := 30

/-- A cover moves in the last ticks before it has opened or closed. -/
def coverPosition (cover : SavedCover F) (tick : ℕ) : F × F × F :=
  let remaining := cover.nextTransitionTick - tick
  let progress :=
    div (ofInt (coverTravelTicks - min remaining coverTravelTicks : ℕ) : F) (ofInt coverTravelTicks)
  let travel := mul (sub (lit 3.4) (lit 1)) progress
  (cover.groundPosition.1,
    if cover.isOpen then sub (lit 3.4) travel else add (lit 1) travel,
    cover.groundPosition.2)

def publicCover (cover : SavedCover F) : PublicCoverView F where
  id := cover.id
  revision := cover.identity.segment
  present := cover.present
  position := coverPosition cover cover.identity.tick
  halfExtents := (lit 1.5, lit 1, lit 0.15)
  isOpen := cover.isOpen

/-- The pose of a platform at a phase of its turn. -/
def platformPose (phase : ℕ) : BasePose F where
  position := (lit 0, lit 0.125, lit (-10))
  rotation := (lit 0, (yaw phase).1, lit 0, (yaw phase).2)
  linearVelocity := (lit 0, lit 0, lit 0)
  angularVelocity := (lit 0, lit 0.3681554, lit 0)

/-- What everyone sees of a platform. -/
def publicPlatform (sceneRevision : ℕ) (platform : Platform) : PublicPlatformView F where
  id := platform.id
  collider := platform.collider
  sceneRevision := sceneRevision
  motionRevision := platform.motionRevision
  originGameplayTick := platform.originGameplayTick
  gameplayTick := platform.gameplayTick
  phase := platform.phase
  pose := platformPose platform.phase
  halfExtents := (lit 3, lit 0.125, lit 1.5)

/-- A game-approved anonymous representation of an effect. -/
structure CoarseEffectProxy where
  proxyId : ℕ
  cell : ℤ × ℤ
  cellSize : ℕ
  ageTicks : ℕ
  durationTicks : ℕ

/-- `project` of a proxy; nothing where the source has an error. -/
def CoarseEffectProxy.project (proxy : CoarseEffectProxy) (stamp : ReplicationStamp) :
    Option (PublicEffectView F) :=
  if ¬stamp.valid ∨ proxy.proxyId = 0 ∨ ¬(1 ≤ proxy.cellSize ∧ proxy.cellSize ≤ 1024) ∨
      proxy.durationTicks = 0 ∨ proxy.durationTicks < proxy.ageTicks ∨
      1000000 < proxy.cell.1.natAbs ∨ 1000000 < proxy.cell.2.natAbs then none
  else
    let size : F := ofInt proxy.cellSize
    some {
      id := ⟨none, stamp.matchEpoch, 0, proxy.proxyId, 65535⟩
      kind := .radialPulse
      position := (mul (add (ofInt proxy.cell.1) (lit 0.5)) size,
        mul (add (ofInt proxy.cell.2) (lit 0.5)) size)
      radius := size
      ageTicks := proxy.ageTicks
      durationTicks := proxy.durationTicks }

/-- The game's event rules.  An origin outside the arena is never disclosed, and only a pulse may be
shown anonymously. -/
def dreamEventAudience (sources : ApprovedSources) (policy : ℕ) :
    EventAudiencePolicy (GraphicsInstance F) where
  revision := policy
  disclosure _ effect :=
    let outside : F → Bool := fun v => !isFinite v || lt (lit 128) (abs v)
    if outside effect.pos.1 || outside effect.pos.2 then none
    else match effect.kind with
      | .radialPulse => some (if sources.allows effect.id.owner then .sourceVisible else .anonymous)
      | .beam _ _ _ | .orb _ => if sources.allows effect.id.owner then some .sourceVisible else none

namespace CommittedReplication
variable (capture : CommittedReplication F) (sources : ApprovedSources)

def projectHero (id : ℕ) : Option (PublicHeroView F) :=
  (capture.place (.hero id)).bind fun i => capture.state.heroes[i]?.map publicHero

def projectEnemy (id : ℕ) : Option (PublicEnemyView F) :=
  (capture.place (.enemy id)).bind fun i => capture.state.enemies[i]?.map publicEnemy

def projectPlatform (id : ℕ) : Option (PublicPlatformView F) :=
  (capture.place (.platform id)).bind fun i =>
    capture.state.platforms[i]?.map (publicPlatform capture.stamp.sceneRevision)

def projectCover (id : ℕ) : Option (PublicCoverView F) :=
  (capture.place (.cover id)).bind fun i => capture.state.covers[i]?.map publicCover

def projectDamage (id : ℕ) : Option (PublicDamageView F) :=
  (capture.place (.damage id)).bind fun i => capture.state.numbers[i]?.map fun number =>
    ⟨id, number.position, number.amount, number.critical, number.friendly, number.age⟩

/-- A projectile; its owner is named only if approved. -/
def projectProjectile (id : ℕ) : Option (PublicProjectileView F) :=
  (capture.place (.projectile id)).bind fun i => capture.state.projectiles[i]?.map fun projectile =>
    { id
      owner := if sources.allows projectile.owner then some projectile.owner else none
      position := projectile.position
      direction := projectile.direction
      speed := projectile.speed
      remaining := projectile.remaining
      maxDistance := projectile.maxDistance
      radius := projectile.radius
      friendly := projectile.faction = 1
      essence := projectile.essence }

/-- The velocity of the active hero with this id; zero if there is none. -/
def ownerVelocity (owner : ℕ) : F × F :=
  ((capture.state.heroes.find? fun hero => hero.view.id = owner && hero.active).map fun hero =>
    planarVelocity hero.motion).getD (lit 0, lit 0)

/-- A wisp on its circle around the owner, who is named only if approved. -/
def projectWisp (id : ℕ) : Option (PublicWispView F) :=
  (capture.place (.wisp id)).bind fun i => capture.state.wisps[i]?.map fun wisp =>
    let velocity := capture.ownerVelocity wisp.owner
    let tangentSpeed := mul wisp.orbitRadius wisp.orbitSpeed
    { id
      owner := if sources.allows wisp.owner then some wisp.owner else none
      position := wisp.position
      velocity := (sub velocity.1 (mul (sin wisp.orbitAngle) tangentSpeed),
        add velocity.2 (mul (cos wisp.orbitAngle) tangentSpeed))
      remaining := wisp.remaining
      essence := wisp.essence }

/-- An effect of an approved source; its identity is that of the match captured. -/
def projectEffect (id : GraphicsId) : Option (PublicEffectView F) :=
  if ¬sources.allows id.owner then none
  else (capture.place (.effect id)).bind fun i => capture.state.effects[i]?.map fun effect =>
    { id := { effect.id with matchEpoch := capture.stamp.matchEpoch }
      kind := effect.kind
      position := effect.pos
      radius := effect.radius
      ageTicks := effect.ageTicks
      durationTicks := effect.durationTicks }

/-- The anonymous representation of an effect: its cell, and how far it has run. -/
def coarseProxy (proxyId : ℕ) (effect : GraphicsInstance F) : CoarseEffectProxy where
  proxyId := proxyId
  cell := (toInt (floor (div effect.pos.1 (lit 8))), toInt (floor (div effect.pos.2 (lit 8))))
  cellSize := 8
  ageTicks := effect.ageTicks
  durationTicks := effect.durationTicks

/-- The event of an effect, as the audience rules let the connection see it. -/
def projectEvent (id : GraphicsId) (connection policy proxyId : ℕ) : Option (PublicEffectView F) :=
  (capture.place (.effect id)).bind fun i => capture.state.effects[i]?.bind fun effect =>
    (EventAudience.authorize connection effect (dreamEventAudience sources policy)).bind
      fun audience =>
      (audience.project connection policy (fun _ => capture.projectEffect sources id)
        (fun effect => (coarseProxy proxyId effect).project capture.stamp)).toOption

/-- What the connection is told of the actor with a key. -/
def project : ReplicationKey → Option (PublicReplica F)
  | .hero id => (capture.projectHero id).map .hero
  | .platform id => (capture.projectPlatform id).map .platform
  | .enemy id => (capture.projectEnemy id).map .enemy
  | .projectile id => (capture.projectProjectile sources id).map .projectile
  | .wisp id => (capture.projectWisp sources id).map .wisp
  | .effect id => (capture.projectEffect sources id).map .effect
  | .damage id => (capture.projectDamage id).map .damage
  | .cover id => (capture.projectCover id).map .cover
  -- parent scopes are connection-local, so the adapter projects markers itself
  | .coverMarker _ => none

end CommittedReplication
end Dreamwake.Simulation
