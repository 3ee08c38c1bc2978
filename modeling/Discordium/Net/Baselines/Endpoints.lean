import Discordium.Net.Baselines.Cache

/-!
# Net — Baselines — Endpoints

`ServerBaselines` and `ClientBaselines`: the two ends of the baseline protocol over the cache.  A
call answers with the new endpoint and an `Except`; the error paths that change the endpoint (a
delta whose base is unknown asks for a repair) do so here too.
-/

namespace Net.Baselines
open Lib

/-- Server-side sent-state cache. -/
structure ServerBaselines (P : Type) where
  cache : Cache P

/-- Client retained baselines. -/
structure ClientBaselines (P : Type) where
  cache : Cache P
  proposed : Option BaselineRetirement
  repairPending : Bool
  lastRepairMs : Option ℕ

namespace ServerBaselines
variable {P : Type}

def new (layout : Layout) (context : BaselineContext) (generation : ℕ) (limits : BaselineLimits) :
    Except ReplicationError (ServerBaselines P) :=
  (Cache.new layout context generation limits).map (⟨·⟩)

/-- A full encoding whose buffer fits a packet. -/
def encodeFull (codec : BaselineCodec P) (payload : P) (packetBytes : ℕ) :
    Except ReplicationError ByteVec :=
  match codec.encodeFull payload packetBytes with
  | .error error => .error error
  | .ok bytes => if packetBytes < bytes.capacity then .error .capacity else .ok bytes

/-- The encoding of a target against an optional base: the delta when it is smaller than the full
encoding. -/
def encode (server : ServerBaselines P) (target : BaselineState P) (base : Option BaselineReceipt)
    (codec : BaselineCodec P) : Except ReplicationError (BaselineEncoding × ByteVec) :=
  let packetBytes := server.cache.limits.packetBytes
  let full := (encodeFull codec target.payload packetBytes).map (BaselineEncoding.full, ·)
  match base with
  | none => full
  | some base =>
    match server.cache.entry base with
    | .error error => .error error
    | .ok entry =>
      if !entry.decoded then .error .unknown
      else if target.receipt.snapshot ≤ base.snapshot then .error .invalidIdentity
      else
        match encodeFull codec target.payload packetBytes with
        | .error error => .error error
        | .ok fullBytes =>
          match codec.encodeDelta entry.state.payload target.payload packetBytes with
          | .ok delta =>
            if packetBytes < delta.capacity then .error .capacity
            else if delta.bytes.length < fullBytes.bytes.length then .ok (.delta base, delta)
            else full
          | .error .capacity => full
          | .error error => .error error

/-- `transmit` up to the call of `send`: whether the target is new, and the packet. -/
def prepare [DecidableEq P] [Payload P] (server : ServerBaselines P) (target : BaselineState P)
    (base : Option BaselineReceipt) (codec : BaselineCodec P) :
    Except ReplicationError (Bool × BaselinePacket) :=
  match server.cache.check target with
  | .error error => .error error
  | .ok insert =>
    if !codec.validate target.payload then .error .invalidPayload
    else (server.encode target base codec).map fun e => (insert, ⟨target.receipt, e.1, e.2⟩)

def transmit [DecidableEq P] [Payload P] (server : ServerBaselines P) (target : BaselineState P)
    (base : Option BaselineReceipt) (codec : BaselineCodec P) (send : BaselinePacket → Bool) :
    ServerBaselines P × Except ReplicationError Bool :=
  match server.prepare target base codec with
  | .error error => (server, .error error)
  | .ok (insert, packet) =>
    if !send packet then (server, .ok false)
    else (if insert then ⟨server.cache.insert target false⟩ else server, .ok true)

/-- The entries with the first one of a receipt marked decoded. -/
def markDecoded (receipt : BaselineReceipt) : List (Entry P) → List (Entry P)
  | [] => []
  | e :: es => if e.state.receipt = receipt then { e with decoded := true } :: es
    else e :: markDecoded receipt es

def acknowledge (server : ServerBaselines P) (receipt : BaselineReceipt) :
    ServerBaselines P × Except ReplicationError Unit :=
  match server.cache.entry receipt with
  | .error error => (server, .error error)
  | .ok _ =>
    (⟨{ server.cache with entries := markDecoded receipt server.cache.entries }⟩, .ok ())

def retire [Payload P] (server : ServerBaselines P) (request : BaselineRetirement) :
    ServerBaselines P × Except ReplicationError BaselineRetirement :=
  match server.cache.retirement request with
  | some error => (server, .error error)
  | none => (⟨server.cache.discard request.through⟩, .ok request)

def beginReset [Payload P] (server : ServerBaselines P) :
    ServerBaselines P × Except ReplicationError BaselineReset :=
  match checkedNext server.cache.generation with
  | none => (server, .error .resetRequired)
  | some generation =>
    let reset : BaselineReset := ⟨server.cache.context, generation⟩
    match server.cache.reset reset with
    | (_, some error) => (server, .error error)
    | (cache, none) => (⟨cache⟩, .ok reset)

def close [Payload P] (server : ServerBaselines P) : ServerBaselines P := ⟨server.cache.close⟩

end ServerBaselines

namespace ClientBaselines
variable {P : Type}

def new (layout : Layout) (context : BaselineContext) (generation : ℕ) (limits : BaselineLimits) :
    Except ReplicationError (ClientBaselines P) :=
  (Cache.new layout context generation limits).map fun cache =>
    { cache, proposed := none, repairPending := false, lastRepairMs := none }

/-- The exact retained target, including an older duplicate. -/
def state (client : ClientBaselines P) (receipt : BaselineReceipt) :
    Except ReplicationError (BaselineState P) :=
  (client.cache.entry receipt).map (·.state)

/-- The delta identity is judged independently of what is retained. -/
def malformedDelta (packet : BaselinePacket) : Bool :=
  match packet.encoding with
  | .full => false
  | .delta base =>
    base.context ≠ packet.target.context || base.generation ≠ packet.target.generation
      || base.snapshot = 0 || base.version = 0 || packet.target.snapshot ≤ base.snapshot
      || packet.target.version < base.version || packet.target.endTick < base.endTick

/-- The snapshot order of a target contradicts the committed metadata. -/
def contradicts (target latest : BaselineReceipt) : Prop :=
  (target.snapshot < latest.snapshot ∧
      (latest.version < target.version ∨ latest.endTick < target.endTick)) ∨
    (latest.snapshot < target.snapshot ∧
      (target.version < latest.version ∨ target.endTick < latest.endTick)) ∨
    (target.snapshot = latest.snapshot ∧
      (target.version ≠ latest.version ∨ target.endTick ≠ latest.endTick))

instance (target latest : BaselineReceipt) : Decidable (contradicts target latest) :=
  inferInstanceAs (Decidable (_ ∨ _ ∨ _))

/-- The checks of `receive` on the envelope alone. -/
def checkEnvelope (client : ClientBaselines P) (packet : BaselinePacket) :
    Option ReplicationError :=
  if client.cache.limits.packetBytes < packet.bytes.capacity then some .capacity
  else match packet.target.context.validate with
    | some error => some error
    | none =>
      if packet.target.generation = 0 ∨ packet.target.snapshot = 0 ∨ packet.target.version = 0 then
        some .invalidIdentity
      else if malformedDelta packet then some .invalidIdentity
      else if client.cache.latest.any (fun latest => contradicts packet.target latest) then
        some .conflict
      else none

/-- The answer to a packet that cannot be retained: a full payload is still validated first. -/
def refuse (client : ClientBaselines P) (packet : BaselinePacket) (codec : BaselineCodec P)
    (validate : P → Bool) (error : ReplicationError) : ReplicationError :=
  match packet.encoding with
  | .delta _ => error
  | .full =>
    match codec.decodeFull packet.bytes.bytes client.cache.limits.payloadBytes with
    | .error decodeError => decodeError
    | .ok payload => if !codec.validate payload || !validate payload then .invalidPayload else error

/-- Whether a packet is behind what the client has published and no longer holds. -/
def superseded (client : ClientBaselines P) (target : BaselineReceipt) : Bool :=
  client.cache.latest.any (fun latest => target.snapshot < latest.snapshot) &&
    !(client.cache.find target.snapshot).isSome

/-- The refusals of `receive` that depend on the generation, the retired mark and the newest
state. -/
def checkRetention (client : ClientBaselines P) (packet : BaselinePacket) (codec : BaselineCodec P)
    (validate : P → Bool) : Option ReplicationError :=
  let cache := client.cache
  if !cache.closed ∧ packet.target.context = cache.context ∧
      packet.target.generation < cache.generation then
    some (client.refuse packet codec validate (.obsolete .retiredBaseline))
  else if !cache.closed ∧ packet.target.context = cache.context ∧
      checkedNext cache.generation = some packet.target.generation ∧ packet.encoding = .full then
    some (client.refuse packet codec validate .baselineResetPending)
  else match cache.identity packet.target with
    | some (.obsolete reason) => some (client.refuse packet codec validate (.obsolete reason))
    | some error => some error
    | none =>
      if client.superseded packet.target then
        if cache.latest.any (fun latest =>
            latest.version < packet.target.version || latest.endTick < packet.target.endTick) then
          some .conflict
        else some (client.refuse packet codec validate (.obsolete .publication))
      else none

/-- The payload of a packet; a delta with an unknown base of a newer target asks for a repair. -/
def decode (client : ClientBaselines P) (packet : BaselinePacket) (codec : BaselineCodec P) :
    ClientBaselines P × Except ReplicationError P :=
  match packet.encoding with
  | .full => (client, codec.decodeFull packet.bytes.bytes client.cache.limits.payloadBytes)
  | .delta base =>
    if base.context ≠ packet.target.context ∨ base.generation ≠ packet.target.generation ∨
        packet.target.snapshot ≤ base.snapshot then (client, .error .invalidIdentity)
    else match client.cache.entry base with
      | .ok entry =>
        (client, codec.decodeDelta entry.state.payload packet.bytes.bytes
          client.cache.limits.payloadBytes)
      | .error (.obsolete reason) => (client, .error (.obsolete reason))
      | .error error =>
        if client.cache.latest.all (fun latest => latest.snapshot < packet.target.snapshot) then
          ({ client with repairPending := true }, .error error)
        else (client, .error error)

def receive [DecidableEq P] [Payload P] (client : ClientBaselines P) (packet : BaselinePacket)
    (codec : BaselineCodec P) (validate : P → Bool) :
    ClientBaselines P × Except ReplicationError BaselineReceipt :=
  match client.checkEnvelope packet with
  | some error => (client, .error error)
  | none =>
    match client.checkRetention packet codec validate with
    | some error => (client, .error error)
    | none =>
      match client.decode packet codec with
      | (client, .error error) => (client, .error error)
      | (client, .ok payload) =>
        if !codec.validate payload || !validate payload then (client, .error .invalidPayload)
        else
          let state : BaselineState P := ⟨packet.target, payload⟩
          match client.cache.check state with
          | .error error => (client, .error error)
          | .ok insert =>
            ({ client with
                cache := if insert then client.cache.insert state true else client.cache
                repairPending := if packet.encoding = .full then false else client.repairPending },
              .ok packet.target)

def proposeRetirement (client : ClientBaselines P) (through : ℕ) :
    ClientBaselines P × Except ReplicationError BaselineRetirement :=
  let request : BaselineRetirement := ⟨client.cache.context, client.cache.generation, through⟩
  match client.cache.retirement request with
  | some error => (client, .error error)
  | none =>
    if through ≤ client.cache.retired then (client, .error .stale)
    else if client.proposed.any (fun old => old ≠ request) then (client, .error .incomplete)
    else ({ client with proposed := some request }, .ok request)

def acknowledgeRetirement [Payload P] (client : ClientBaselines P) (fence : BaselineRetirement) :
    ClientBaselines P × Except ReplicationError Unit :=
  match client.cache.envelope fence.context fence.generation with
  | some error => (client, .error error)
  | none =>
    if fence.through ≤ client.cache.retired then (client, .ok ())
    else if client.proposed ≠ some fence then (client, .error .unknown)
    else match client.cache.retirement fence with
      | some error => (client, .error error)
      | none =>
        ({ client with cache := client.cache.discard fence.through, proposed := none }, .ok ())

def requestReset (client : ClientBaselines P) : ClientBaselines P :=
  { client with repairPending := true }

def repairRequest (client : ClientBaselines P) (nowMs : ℕ) :
    ClientBaselines P × Option BaselineRepair :=
  if client.cache.closed ∨ !client.repairPending ∨ client.lastRepairMs.any (fun last =>
      decide (nowMs < saturatingAdd 64 last client.cache.limits.repairIntervalMs))
        then (client, none)
  else ({ client with lastRepairMs := some nowMs },
    some ⟨client.cache.context, client.cache.generation⟩)

def applyReset [Payload P] (client : ClientBaselines P) (reset : BaselineReset) :
    ClientBaselines P × Except ReplicationError Unit :=
  match client.cache.reset reset with
  | (_, some error) => (client, .error error)
  | (cache, none) =>
    if reset.generation ≠ client.cache.generation then
      ({ client with cache, proposed := none, repairPending := true }, .ok ())
    else ({ client with cache }, .ok ())

def close [Payload P] (client : ClientBaselines P) : ClientBaselines P :=
  { client with cache := client.cache.close, proposed := none, repairPending := false }

end ClientBaselines
end Net.Baselines
