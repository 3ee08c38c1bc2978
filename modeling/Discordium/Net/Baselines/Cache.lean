import Discordium.Net.Replication.Types

/-!
# Net — Baselines — Cache

The opt-in baseline protocol of one representation, as `baselines/cache.rs` has it.  Server and
client keep the same `Cache` of states; the server remembers which of them the client has proved to
hold and may encode a delta against those only.  The codec is a record of functions; what the
allocator and the compiler decide (the sizes of an entry and of a client, the capacity granted to a
request) is the record `Layout`.
-/

namespace Net.Baselines
open Lib

structure BaselineContext where
  scope : ScopeIdentity
  schema : ℕ
  group : Option (ℕ × ℕ)
  deriving DecidableEq

/-- `BaselineContext::validate`. -/
def BaselineContext.validate (context : BaselineContext) : Option ReplicationError :=
  match validateScope context.scope context.scope.connection with
  | some error => some error
  | none =>
    if context.schema = 0 ∨ context.group.any (fun g => g.1 = 0 || g.2 = 0)
      then some .invalidIdentity
    else none

/-- Exact canonical state proof, including the tick. -/
structure BaselineReceipt where
  context : BaselineContext
  generation : ℕ
  snapshot : ℕ
  version : ℕ
  endTick : ℕ
  deriving DecidableEq

structure BaselineState (P : Type) where
  receipt : BaselineReceipt
  payload : P
  deriving DecidableEq

inductive BaselineEncoding where
  | full
  | delta (base : BaselineReceipt)
  deriving DecidableEq

/-- An owned byte vector: its contents and the capacity allocated for them. -/
structure ByteVec where
  bytes : List UInt8
  capacity : ℕ
  fits : bytes.length ≤ capacity
  deriving DecidableEq

structure BaselinePacket where
  target : BaselineReceipt
  encoding : BaselineEncoding
  bytes : ByteVec
  deriving DecidableEq

structure BaselineRetirement where
  context : BaselineContext
  generation : ℕ
  through : ℕ
  deriving DecidableEq

structure BaselineReset where
  context : BaselineContext
  generation : ℕ

structure BaselineRepair where
  context : BaselineContext
  generation : ℕ

structure BaselineLimits where
  slots : ℕ
  payloadBytes : ℕ
  packetBytes : ℕ
  residentBytes : ℕ
  peakBytes : ℕ
  repairIntervalMs : ℕ

/-- `BaselineLimits::default()`. -/
def BaselineLimits.default : BaselineLimits where
  slots := 8
  payloadBytes := 16384
  packetBytes := 16384 + 12
  residentBytes := 160 * 1024
  peakBytes := 200 * 1024
  repairIntervalMs := 1000

/-- Pure canonical codec of a payload. -/
structure BaselineCodec (P : Type) where
  encodeFull : P → ℕ → Except ReplicationError ByteVec
  encodeDelta : P → P → ℕ → Except ReplicationError ByteVec
  decodeFull : List UInt8 → ℕ → Except ReplicationError P
  decodeDelta : P → List UInt8 → ℕ → Except ReplicationError P
  validate : P → Bool

structure Entry (P : Type) where
  state : BaselineState P
  decoded : Bool

/-- The sizes and the vector capacity the platform decides. -/
structure Layout where
  entrySize : ℕ
  clientSize : ℕ
  capacity : ℕ → ℕ

structure Cache (P : Type) where
  context : BaselineContext
  generation : ℕ
  limits : BaselineLimits
  entries : List (Entry P)
  bytes : ℕ
  retired : ℕ
  latest : Option BaselineReceipt
  closed : Bool

namespace Cache
variable {P : Type}

/-- `slots * size_of::<Entry>() + size_of::<ClientBaselines>()`, checked. -/
def metadata (layout : Layout) (slots : ℕ) : Option ℕ :=
  if slots * layout.entrySize ≤ wordMax 64 then
    checkedAdd 64 (slots * layout.entrySize) layout.clientSize
  else none

def new (layout : Layout) (context : BaselineContext) (generation : ℕ) (limits : BaselineLimits) :
    Except ReplicationError (Cache P) :=
  match context.validate with
  | some error => .error error
  | none =>
    if generation = 0 then .error .invalidIdentity
    else
      match (metadata layout limits.slots).bind (checkedAdd 64 · limits.payloadBytes),
        (checkedAdd 64 limits.residentBytes limits.payloadBytes).bind
          (checkedAdd 64 · limits.packetBytes) with
      | some minimum, some peak =>
        if limits.slots < 2 ∨ limits.payloadBytes = 0 ∨ limits.packetBytes = 0
            ∨ limits.residentBytes < minimum ∨ limits.peakBytes < peak
            ∨ limits.repairIntervalMs = 0 then .error .invalidConfiguration
        else
          -- the capacity actually granted is charged, not the one requested
          match metadata layout (layout.capacity limits.slots) with
          | none => .error .capacity
          | some bytes =>
            if (checkedAdd 64 bytes limits.payloadBytes).all
                (fun n => limits.residentBytes < n) then
              .error .capacity
            else
              .ok { context, generation, limits, entries := [], bytes, retired := 0, latest := none
                    closed := false }
      | _, _ => .error .invalidConfiguration

def envelope (cache : Cache P) (context : BaselineContext) (generation : ℕ) :
    Option ReplicationError :=
  if cache.closed ∨ context ≠ cache.context ∨ generation ≠ cache.generation
    then some .stale else none

def identity (cache : Cache P) (receipt : BaselineReceipt) : Option ReplicationError :=
  match cache.envelope receipt.context receipt.generation with
  | some error => some error
  | none =>
    if receipt.snapshot = 0 ∨ receipt.version = 0 then some .invalidIdentity
    else if receipt.snapshot ≤ cache.retired then some (.obsolete .retiredBaseline)
    else none

/-- The entry of a snapshot. -/
def find (cache : Cache P) (snapshot : ℕ) : Option (Entry P) :=
  cache.entries.find? (·.state.receipt.snapshot = snapshot)

def entry (cache : Cache P) (receipt : BaselineReceipt) : Except ReplicationError (Entry P) :=
  match cache.identity receipt with
  | some error => .error error
  | none =>
    match cache.find receipt.snapshot with
    | none => .error .unknown
    | some entry => if entry.state.receipt ≠ receipt then .error .conflict else .ok entry

/-- The order a new state keeps with the newest one ever inserted. -/
def checkLatest [DecidableEq P] (cache : Cache P) (state : BaselineState P) :
    Option ReplicationError :=
  match cache.latest with
  | none => none
  | some latest =>
    if state.receipt.version = latest.version ∧
        cache.entries.getLast?.any (fun e => e.state.payload ≠ state.payload) then some .conflict
    else if state.receipt.snapshot < latest.snapshot ∧ state.receipt.version ≤ latest.version ∧
        state.receipt.endTick ≤ latest.endTick then some (.obsolete .publication)
    else if state.receipt.snapshot ≤ latest.snapshot ∨ state.receipt.version < latest.version ∨
        state.receipt.endTick < latest.endTick then some .conflict
    else none

/-- `check`: whether the state is to be inserted, or is held already. -/
def check [DecidableEq P] [Payload P] (cache : Cache P) (state : BaselineState P) :
    Except ReplicationError Bool :=
  match cache.identity state.receipt with
  | some error => .error error
  | none =>
    let size := Payload.retainedBytes state.payload
    if cache.limits.payloadBytes < size then .error .capacity
    else
      match cache.find state.receipt.snapshot with
      | some entry => if entry.state = state then .ok false else .error .conflict
      | none =>
        match cache.checkLatest state with
        | some error => .error error
        | none =>
          if cache.limits.slots ≤ cache.entries.length ∨
              (checkedAdd 64 cache.bytes size).all (fun n => cache.limits.residentBytes < n) then
            .error .capacity
          else .ok true

def insert [Payload P] (cache : Cache P) (state : BaselineState P) (decoded : Bool) : Cache P :=
  { cache with
    bytes := cache.bytes + Payload.retainedBytes state.payload
    latest := some state.receipt
    entries := cache.entries ++ [⟨state, decoded⟩] }

def retirement (cache : Cache P) (fence : BaselineRetirement) : Option ReplicationError :=
  match cache.envelope fence.context fence.generation with
  | some error => some error
  | none =>
    if fence.through = 0 then some .invalidIdentity
    else if fence.through ≤ cache.retired then none
    -- at least one decoded usable replacement is retained
    else if !cache.entries.any (fun e => e.decoded &&
      decide (fence.through < e.state.receipt.snapshot))
    then some .incomplete
    else none

/-- The bytes the payloads of some entries retain. -/
def retainedBytes [Payload P] (entries : List (Entry P)) : ℕ :=
  (entries.map fun e => Payload.retainedBytes e.state.payload).sum

def discard [Payload P] (cache : Cache P) (through : ℕ) : Cache P :=
  if through ≤ cache.retired then cache
  else
    { cache with
      bytes := cache.bytes -
        retainedBytes (cache.entries.filter fun e => decide (e.state.receipt.snapshot ≤ through))
      entries := cache.entries.filter fun e => decide (through < e.state.receipt.snapshot)
      retired := through }

def clear [Payload P] (cache : Cache P) : Cache P :=
  { cache with bytes := cache.bytes - retainedBytes cache.entries, entries := [] }

def reset [Payload P] (cache : Cache P) (reset : BaselineReset) :
    Cache P × Option ReplicationError :=
  if cache.closed ∨ reset.context ≠ cache.context ∨ reset.generation < cache.generation then
    (cache, some .stale)
  else if reset.generation = cache.generation then (cache, none)
  -- the snapshot, tick and version high water is kept across a reset
  else ({ cache.clear with generation := reset.generation }, none)

def close [Payload P] (cache : Cache P) : Cache P := { cache.clear with closed := true }

end Cache
end Net.Baselines
