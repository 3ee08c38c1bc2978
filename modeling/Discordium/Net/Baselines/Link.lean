import Discordium.Lib.Machine
import Discordium.Net.Baselines.Sound

/-!
# Net — Baselines — Link

A server and a client of one representation, joined by lanes that lose, repeat and reorder.
Whatever one end has produced stays on its lane; an action of the link lets one end act or hands any
of the produced messages to the other end, as often and in whatever order the environment chooses.
The link also keeps the states behind the packets the transport has taken.

`Consistent` is the joint invariant: both caches are sound for the transmitted log, the client is
behind the server in generation and retired mark, a receipt the client has returned is still held
until it is retired or the generation ends, and a delta is encoded against a state the client has a
receipt for.
-/

namespace Net.Baselines
open Lib

variable {P : Type}

/-- The two ends and the lanes between them. -/
structure Link (P : Type) where
  server : ServerBaselines P
  client : ClientBaselines P
  transmitted : List (BaselineState P)
  packets : List BaselinePacket
  receipts : List BaselineReceipt
  requests : List BaselineRetirement
  fences : List BaselineRetirement
  resets : List BaselineReset

/-- What can happen on a link.  An index picks a message produced earlier. -/
inductive Action (P : Type) where
  | transmit (target : BaselineState P) (base : Option BaselineReceipt)
      (send : BaselinePacket → Bool)
  | receive (index spare : ℕ) (validate : P → Bool)
  | acknowledge (index : ℕ)
  | proposeRetirement (through : ℕ)
  | retire (index : ℕ)
  | acknowledgeRetirement (index : ℕ)
  | beginReset
  | applyReset (index : ℕ)
  | requestReset
  | repairRequest (nowMs : ℕ)
  | closeServer
  | closeClient

/-- A packet as the receiver's own allocation holds it. -/
def BaselinePacket.arrive (packet : BaselinePacket) (spare : ℕ) : BaselinePacket :=
  { packet with
    bytes := ⟨packet.bytes.bytes, packet.bytes.bytes.length + spare, Nat.le_add_right _ _⟩ }

namespace Link
variable [DecidableEq P] [Payload P]

/-- A fresh pair of endpoints with empty lanes. -/
def start (server : ServerBaselines P) (client : ClientBaselines P) : Link P :=
  { server, client, transmitted := [], packets := [], receipts := [], requests := [], fences := []
    resets := [] }

def step (codec : BaselineCodec P) (link : Link P) : Action P → Link P
  | .transmit target base send =>
    let (server, _) := link.server.transmit target base codec send
    match link.server.prepare target base codec with
    | .error _ => { link with server }
    | .ok (_, packet) =>
      if send packet then
        { link with
          server, transmitted := link.transmitted ++ [target], packets := link.packets ++ [packet] }
      else { link with server }
  | .receive index spare validate =>
    match link.packets[index]? with
    | none => link
    | some packet =>
      match link.client.receive (packet.arrive spare) codec validate with
      | (client, .ok receipt) => { link with client, receipts := link.receipts ++ [receipt] }
      | (client, .error _) => { link with client }
  | .acknowledge index =>
    match link.receipts[index]? with
    | none => link
    | some receipt => { link with server := (link.server.acknowledge receipt).1 }
  | .proposeRetirement through =>
    match link.client.proposeRetirement through with
    | (client, .ok request) => { link with client, requests := link.requests ++ [request] }
    | (client, .error _) => { link with client }
  | .retire index =>
    match link.requests[index]? with
    | none => link
    | some request =>
      match link.server.retire request with
      | (server, .ok fence) => { link with server, fences := link.fences ++ [fence] }
      | (server, .error _) => { link with server }
  | .acknowledgeRetirement index =>
    match link.fences[index]? with
    | none => link
    | some fence => { link with client := (link.client.acknowledgeRetirement fence).1 }
  | .beginReset =>
    match link.server.beginReset with
    | (server, .ok reset) => { link with server, resets := link.resets ++ [reset] }
    | (server, .error _) => { link with server }
  | .applyReset index =>
    match link.resets[index]? with
    | none => link
    | some reset => { link with client := (link.client.applyReset reset).1 }
  | .requestReset => { link with client := link.client.requestReset }
  | .repairRequest nowMs => { link with client := (link.client.repairRequest nowMs).1 }
  | .closeServer => { link with server := link.server.close }
  | .closeClient => { link with client := link.client.close }

end Link

/-! ### The joint invariant -/

/-- What the protocol asks of its codec: decoding undoes encoding, within the payload limit. -/
structure BaselineCodec.Faithful [Payload P] (codec : BaselineCodec P) : Prop where
  full : ∀ v limit bytes limit', codec.encodeFull v limit = .ok bytes →
    Payload.retainedBytes v ≤ limit' → codec.decodeFull bytes.bytes limit' = .ok v
  delta : ∀ base v limit bytes limit', codec.encodeDelta base v limit = .ok bytes →
    Payload.retainedBytes v ≤ limit' → codec.decodeDelta base bytes.bytes limit' = .ok v

/-- The bytes of a packet are an encoding of the target; a delta is against a logged state of the
same generation that the client has a receipt for. -/
def EncodedFrom (codec : BaselineCodec P) (packetBytes : ℕ) (log : List (BaselineState P))
    (receipts : List BaselineReceipt) (t : BaselineState P) (packet : BaselinePacket) : Prop :=
  match packet.encoding with
  | .full => ∃ v, codec.encodeFull t.payload packetBytes = .ok v ∧ v.bytes = packet.bytes.bytes
  | .delta base =>
    base ∈ receipts ∧ ∃ b ∈ log, b.receipt = base ∧
      b.receipt.generation = t.receipt.generation ∧ b.receipt.snapshot < t.receipt.snapshot ∧
      ∃ v, codec.encodeDelta b.payload t.payload packetBytes = .ok v ∧ v.bytes = packet.bytes.bytes

/-- A packet the server produced for a logged state. -/
structure Genuine [Payload P] (codec : BaselineCodec P) (limits : BaselineLimits)
    (log : List (BaselineState P)) (receipts : List BaselineReceipt) (packet : BaselinePacket)
    (t : BaselineState P) : Prop where
  logged : t ∈ log
  target : t.receipt = packet.target
  fits : Payload.retainedBytes t.payload ≤ limits.payloadBytes
  encoded : EncodedFrom codec limits.packetBytes log receipts t packet

/-- A receipt the client has returned: its state is kept until it is retired or the generation
ends. -/
structure Retained (log : List (BaselineState P)) (cache : Cache P)
    (r : BaselineReceipt) : Prop where
  logged : ∃ t ∈ log, t.receipt = r
  generation_le : r.generation ≤ cache.generation
  kept : cache.closed = false → r.generation = cache.generation →
    r.snapshot ≤ cache.retired ∨ ∃ s ∈ cache.states, s.receipt = r

variable {log log' : List (BaselineState P)}

/-- A log that grows keeps what is known of a returned receipt. -/
theorem Retained.mono {cache : Cache P} {r : BaselineReceipt}
    (h : Retained log cache r) (hsub : ∀ t ∈ log, t ∈ log') : Retained log' cache r :=
  { h with logged := let ⟨t, ht, heq⟩ := h.logged; ⟨t, hsub t ht, heq⟩ }

/-- A log and a receipt lane that grow keep a packet genuine. -/
theorem Genuine.mono [Payload P] {codec : BaselineCodec P} {limits : BaselineLimits}
    {receipts receipts' : List BaselineReceipt} {packet : BaselinePacket} {t : BaselineState P}
    (h : Genuine codec limits log receipts packet t) (hsub : ∀ t ∈ log, t ∈ log')
    (hreceipts : ∀ r ∈ receipts, r ∈ receipts') :
    Genuine codec limits log' receipts' packet t := by
  refine ⟨hsub t h.logged, h.target, h.fits, ?_⟩
  have henc := h.encoded
  simp only [EncodedFrom] at henc ⊢
  split at henc
  · exact henc
  · obtain ⟨hr, b, hb, heq, hrest⟩ := henc
    exact ⟨hreceipts _ hr, b, hsub b hb, heq, hrest⟩

/-- The joint invariant of a link. -/
structure Link.Consistent [Payload P] (codec : BaselineCodec P) (context : BaselineContext)
    (link : Link P) : Prop where
  context_valid : context.validate = none
  server_context : link.server.cache.context = context
  client_context : link.client.cache.context = context
  limits_eq : link.client.cache.limits = link.server.cache.limits
  generation_pos : link.server.cache.generation ≠ 0
  log : Coherent context link.transmitted
  server_sound : link.server.cache.Sound link.transmitted
  client_sound : link.client.cache.Sound link.transmitted
  newest : ∀ t ∈ link.transmitted,
    ∃ r, link.server.cache.latest = some r ∧ t.receipt.snapshot ≤ r.snapshot
  generation_le : link.client.cache.generation ≤ link.server.cache.generation
  retired_le : link.client.cache.retired ≤ link.server.cache.retired
  fences_le : ∀ f ∈ link.fences, f.through ≤ link.server.cache.retired
  resets_le : ∀ r ∈ link.resets, r.generation ≤ link.server.cache.generation
  retained : ∀ r ∈ link.receipts, Retained link.transmitted link.client.cache r
  decoded : ∀ e ∈ link.server.cache.entries, e.decoded = true → e.state.receipt ∈ link.receipts
  genuine : ∀ p ∈ link.packets, ∃ t, Genuine codec link.server.cache.limits link.transmitted
    link.receipts p t

end Net.Baselines
