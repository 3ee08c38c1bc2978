import Discordium.Lib.Totals
import Discordium.Net.Baselines.Endpoints
import Discordium.Net.Replication.Groups.Assembler

/-!
# Dreamwake — Server — Baselines

The baseline caches of one connection's owner group, as `authority/baselines.rs` has them.  Every
member of the group has a cache of its own; a publication is previewed on all of them before it is
sent and entered in all of them after it was accepted by the transport.  Payloads are as `clone`
leaves them, so the bytes they retain are a function of their contents; the codec and the layout are
those of the caches.
-/

namespace Dreamwake
open Net Net.Baselines Lib
open Std (ExtTreeMap)

/-! ### Constants of the protocol -/

namespace Group

/-- `MIN_MEMBERS`. -/
def minMembers : ℕ := 3

/-- `MEMBERS`. -/
def members : ℕ := 4

def validMemberCount (count : ℕ) : Bool := minMembers ≤ count && count ≤ members

/-- `PAYLOAD_BYTES`. -/
def payloadBytes : ℕ := 48 * 1024

/-- `MEMBER_BYTES`. -/
def memberBytes : ℕ := payloadBytes + 256

/-- `GROUP_BYTES`: a message of the owner group without its header and its tag. -/
def bytes : ℕ := 64 * 1024 - 24 - 1

/-- `GROUP_STAGING_BYTES`: eight groups may be incomplete. -/
def stagingBytes : ℕ := bytes * 8

/-- `GROUP_RESIDENT_BYTES`. -/
def residentBytes : ℕ := members * (512 * 1024)

/-- `GROUP_PEAK_BYTES`. -/
def peakBytes : ℕ := residentBytes * 2 + stagingBytes

/-- What is charged for building a publication: three copies of every payload, the codecs and the
framed scratch. -/
def stagedBytes (count : ℕ) : ℕ := 2 * 65536 + 6 * memberBytes * count

/-- `live::baselines::limits()`. -/
def limits : BaselineLimits :=
  { BaselineLimits.default with
    payloadBytes := payloadBytes
    packetBytes := payloadBytes + 12
    residentBytes := 512 * 1024
    peakBytes := 640 * 1024 }

section Targets
variable {P : Type}

def context (state : FullState P) (publication : GroupPublication) : BaselineContext :=
  ⟨state.scope, 1, some (publication.group, publication.revision)⟩

def target (state : FullState P) (publication : GroupPublication) (generation : ℕ) :
    BaselineReceipt :=
  ⟨context state publication, generation, state.snapshot, state.version, state.endTick⟩

end Targets
end Group

/-- A decode proof of one member of the group. -/
structure DecodedBaseline where
  state : StateReceipt
  baseline : BaselineReceipt

/-- What an operation on the group reports as text: a message, or an error of a cache. -/
inductive BaselineFault where
  | text (message : String)
  | replication (error : ReplicationError)
  deriving DecidableEq

structure OwnerBaselines (P : Type) where
  caches : ExtTreeMap EntityId (BaselineContext × ServerBaselines P)
  resetPending : Option (List BaselineReset)
  resetQueued : Bool

/-- The packets are equal: contents, not capacities. -/
def samePacket (a b : BaselinePacket) : Bool :=
  a.target = b.target && a.encoding = b.encoding && a.bytes.bytes = b.bytes.bytes

/-- The number of different items of a list. -/
def distinct {α : Type} [DecidableEq α] (items : List α) : ℕ := items.dedup.length

namespace OwnerBaselines
variable {P : Type}

/-- `OwnerBaselines::default()`. -/
def default : OwnerBaselines P := ⟨∅, none, false⟩

def close (_ : OwnerBaselines P) : OwnerBaselines P := default

/-- The bytes all caches retain. -/
def resident (group : OwnerBaselines P) : ℕ :=
  total (fun member => member.2.cache.bytes) group.caches

def checkPeak (group : OwnerBaselines P) (stagedBytes : ℕ) : Except BaselineFault Unit :=
  if (checkedAdd 64 group.resident stagedBytes).all (fun bytes => Group.peakBytes < bytes) then
    .error (.text "Owner baseline staging capacity")
  else .ok ()

def checkBudget (group : OwnerBaselines P) : Except BaselineFault Unit :=
  if Group.members < group.caches.size ∨ Group.residentBytes < group.resident then
    .error (.text "Owner baseline aggregate capacity")
  else .ok ()

/-! ### Publications -/

section Publications
variable (layout : Layout) (codec : BaselineCodec P)

/-- New caches for the members, up to the first that cannot be made. -/
def openCaches (publication : GroupPublication)
    (caches : ExtTreeMap EntityId (BaselineContext × ServerBaselines P)) :
    List (FullState P) →
      ExtTreeMap EntityId (BaselineContext × ServerBaselines P) × Option ReplicationError
  | [] => (caches, none)
  | state :: states =>
    let context := Group.context state publication
    match ServerBaselines.new layout context 1 Group.limits with
    | .error error => (caches, some error)
    | .ok cache => openCaches publication (caches.insert state.scope.entity (context, cache)) states

/-- The caches are not those of the members of the publication. -/
def changed (group : OwnerBaselines P) (members : List (FullState P))
    (publication : GroupPublication) : Bool :=
  group.caches.size ≠ members.length ||
    members.any fun state => group.caches[state.scope.entity]?.all fun member =>
      member.1 ≠ Group.context state publication

def prepareContexts (group : OwnerBaselines P) (members : List (FullState P))
    (publication : GroupPublication) : OwnerBaselines P × Except BaselineFault Unit :=
  if !Group.validMemberCount members.length ∨
      distinct (members.map (·.scope.entity)) ≠ members.length then
    (group, .error (.text "Invalid owner baseline manifest"))
  else if group.changed members publication then
    match openCaches layout publication group.close.caches members with
    | (caches, some error) => ({ group.close with caches }, .error (.replication error))
    | (caches, none) => ({ group.close with caches }, checkBudget { group.close with caches })
  else (group, group.checkBudget)

/-- The newest state the client has proved to hold. -/
def newestDecoded (cache : ServerBaselines P) : Option BaselineReceipt :=
  (cache.cache.entries.reverse.find? (·.decoded)).map (·.state.receipt)

variable [DecidableEq P] [Payload P]

/-- The packet a cache would send for its member; the callback refuses it, so the cache stays as it
is. -/
def previewMember (group : OwnerBaselines P) (publication : GroupPublication)
    (state : FullState P) : Except ReplicationError BaselinePacket :=
  match group.caches[state.scope.entity]? with
  | none => .error .unknown
  | some (_, cache) =>
    let receipt := Group.target state publication cache.cache.generation
    let base := (newestDecoded cache).filter fun base => base.snapshot < receipt.snapshot
    (cache.prepare ⟨receipt, state.payload⟩ base codec).map (·.2)

def preview (group : OwnerBaselines P) (publication : GroupPublication) :
    List (FullState P) → Except ReplicationError (List BaselinePacket)
  | [] => .ok []
  | state :: states =>
    (group.previewMember codec publication state).bind fun packet =>
      (group.preview publication states).map (packet :: ·)

/-- Every cache begins a reset, up to the first that cannot. -/
def resetCaches (caches : ExtTreeMap EntityId (BaselineContext × ServerBaselines P)) :
    List EntityId →
      ExtTreeMap EntityId (BaselineContext × ServerBaselines P) × Except ReplicationError
        (List BaselineReset)
  | [] => (caches, .ok [])
  | entity :: entities =>
    match caches[entity]? with
    | none => resetCaches caches entities
    | some (context, cache) =>
      match cache.beginReset with
      | (cache, .error error) => (caches.insert entity (context, cache), .error error)
      | (cache, .ok reset) =>
        (resetCaches (caches.insert entity (context, cache)) entities).map id
          (Except.map (reset :: ·))

/-- A reset of the whole group, which stays pending. -/
def beginResets (group : OwnerBaselines P) : OwnerBaselines P × Except BaselineFault Unit :=
  match resetCaches group.caches group.caches.keys with
  | (caches, .error error) => ({ group with caches }, .error (.replication error))
  | (caches, .ok resets) => (⟨caches, some resets, false⟩, .ok ())

def prepare (group : OwnerBaselines P) (members : List (FullState P))
    (publication : GroupPublication) :
    OwnerBaselines P × Except BaselineFault (Option (List BaselinePacket)) :=
  match group.prepareContexts layout members publication with
  | (group, .error fault) => (group, .error fault)
  | (group, .ok ()) =>
    match group.checkPeak (Group.stagedBytes members.length) with
    | .error fault => (group, .error fault)
    | .ok () =>
      match group.preview codec publication members with
      | .ok packets => (group, .ok (some packets))
      | .error .capacity =>
        if group.resetPending.isSome then (group, .ok none)
        else
          match group.beginResets with
          | (group, .error fault) => (group, .error fault)
          | (group, .ok ()) =>
            match group.preview codec publication members with
            | .ok packets => (group, .ok (some packets))
            | .error error => (group, .error (.replication error))
      | .error error => (group, .error (.replication error))

/-- The base an encoding names. -/
def baseOf : BaselineEncoding → Option BaselineReceipt
  | .full => none
  | .delta base => some base

/-- The member's cache takes in what was sent of it. -/
def markMember (group : OwnerBaselines P) (state : FullState P) (packet : BaselinePacket) :
    OwnerBaselines P × Except BaselineFault Unit :=
  match group.caches[state.scope.entity]? with
  | none => (group, .error (.text "Missing baseline cache"))
  | some (context, cache) =>
    match cache.transmit ⟨packet.target, state.payload⟩ (baseOf packet.encoding) codec
        (samePacket · packet) with
    | (cache, answer) =>
      ({ group with caches := group.caches.insert state.scope.entity (context, cache) },
        match answer with
        | .error error => .error (.replication error)
        | .ok false => .error (.text "Changed baseline publication after preflight")
        | .ok true => .ok ())

/-- The loop of `mark_sent`. -/
def markMembers (group : OwnerBaselines P) :
    List (FullState P × BaselinePacket) → OwnerBaselines P × Except BaselineFault Unit
  | [] => (group, .ok ())
  | (state, packet) :: rest =>
    match group.markMember codec state packet with
    | (group, .error fault) => (group, .error fault)
    | (group, .ok ()) => group.markMembers rest

/-- Called only after the complete group message was accepted by the transport. -/
def markSent (group : OwnerBaselines P) (members : List (FullState P))
    (packets : List BaselinePacket) : OwnerBaselines P × Except BaselineFault Unit :=
  match group.markMembers codec (members.zip packets) with
  | (group, .error fault) => (group, .error fault)
  | (group, .ok ()) => (group, group.checkBudget)

end Publications

/-! ### Proofs and retirements -/

/-- The proof is of the context and the generation of its member's cache. -/
def isCurrent (group : OwnerBaselines P) (entity : EntityId) (context : BaselineContext)
    (generation : ℕ) : Bool :=
  group.caches[entity]?.any fun member =>
    context = member.1 && generation = member.2.cache.generation

/-- The loop of `validate_proofs`. -/
def checkProofs (group : OwnerBaselines P) (first : DecodedBaseline) :
    List DecodedBaseline → Except BaselineFault Bool
  | [] => .ok true
  | proof :: proofs =>
    match group.caches[proof.state.scope.entity]? with
    | none => .ok false
    | some (context, cache) =>
      if proof.baseline.context ≠ context ∨ proof.baseline.generation ≠ cache.cache.generation
        then .ok false
      else if proof.baseline.endTick ≠ first.baseline.endTick ∨
          proof.baseline.context.group ≠ first.baseline.context.group then
        .error (.text "Mixed owner baseline proof")
      else
        match cache.cache.entry proof.baseline with
        | .error _ => .ok false
        | .ok _ => group.checkProofs first proofs

def validateProofs (group : OwnerBaselines P) (proofs : List DecodedBaseline) :
    Except BaselineFault Bool :=
  -- obsolete contexts are fenced before the size of the manifest is compared
  if group.caches.isEmpty || proofs.any fun proof => !group.isCurrent proof.state.scope.entity
      proof.baseline.context proof.baseline.generation then
    .ok false
  else if proofs.length ≠ group.caches.size ∨
      distinct (proofs.map (·.state.scope.entity)) ≠ group.caches.size then
    .error (.text "Incomplete owner baseline proof")
  else
    match proofs with
    | [] => .ok false
    | first :: _ => group.checkProofs first proofs

/-- A loop that updates the cache of every item, up to the first that refuses.  A missing cache is
unwrapped. -/
def updateAll {α β : Type} (entity : α → EntityId)
    (update : ServerBaselines P → α → ServerBaselines P × Except ReplicationError β)
    (group : OwnerBaselines P) : List α → OwnerBaselines P × Answer BaselineFault Unit
  | [] => (group, .ok ())
  | item :: items =>
    match group.caches[entity item]? with
    | none => (group, .panic)
    | some (context, cache) =>
      match update cache item with
      | (cache, .error error) =>
        ({ group with caches := group.caches.insert (entity item) (context, cache) },
          .err (.replication error))
      | (cache, .ok _) =>
        updateAll entity update
          { group with caches := group.caches.insert (entity item) (context, cache) } items

/-- The loop of `acknowledge`. -/
def acknowledgeAll (group : OwnerBaselines P) (proofs : List DecodedBaseline) :
    OwnerBaselines P × Answer BaselineFault Unit :=
  group.updateAll (·.state.scope.entity) (fun cache proof =>
    cache.acknowledge proof.baseline) proofs

def acknowledge (group : OwnerBaselines P) (proofs : List DecodedBaseline) :
    OwnerBaselines P × Answer BaselineFault Bool :=
  match group.validateProofs proofs with
  | .error fault => (group, .err fault)
  | .ok false => (group, .ok false)
  | .ok true =>
    match group.acknowledgeAll proofs with
    | (group, .ok ()) => ({ group with resetPending := none, resetQueued := false }, .ok true)
    | (group, .err fault) => (group, .err fault)
    | (group, .panic) => (group, .panic)

/-- The first loop of `retire`: whether every request is current, and allowed. -/
def checkRetirements (group : OwnerBaselines P) :
    List BaselineRetirement → Except BaselineFault Bool
  | [] => .ok true
  | request :: requests =>
    match group.caches[request.context.scope.entity]? with
    | none => .ok false
    | some (context, cache) =>
      if context ≠ request.context ∨ cache.cache.generation ≠ request.generation then .ok false
      else
        match cache.cache.retirement request with
        | some error => .error (.replication error)
        | none => group.checkRetirements requests

variable [Payload P]

/-- The second loop of `retire`. -/
def retireAll (group : OwnerBaselines P) (requests : List BaselineRetirement) :
    OwnerBaselines P × Answer BaselineFault Unit :=
  group.updateAll (·.context.scope.entity) ServerBaselines.retire requests

def retire (group : OwnerBaselines P) (requests : List BaselineRetirement) :
    OwnerBaselines P × Answer BaselineFault (Option (List BaselineRetirement)) :=
  if distinct (requests.map (·.context.scope.entity)) ≠ requests.length then
    (group, .err (.text "Duplicate baseline retirement"))
  else
    match group.checkRetirements requests with
    | .error fault => (group, .err fault)
    | .ok false => (group, .ok none)
    | .ok true =>
      match group.retireAll requests with
      | (group, .ok ()) => (group, .ok (some requests))
      | (group, .err fault) => (group, .err fault)
      | (group, .panic) => (group, .panic)

def repair (group : OwnerBaselines P) (requests : List BaselineRepair) :
    OwnerBaselines P × Except BaselineFault Unit :=
  if group.resetPending.isSome then (group, .ok ())
  else if !requests.any fun request =>
      group.isCurrent request.context.scope.entity request.context request.generation
        then (group, .ok ())
  else group.beginResets

end OwnerBaselines
end Dreamwake
