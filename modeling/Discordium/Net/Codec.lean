import Discordium.Lib.Bytes
import Discordium.Lib.Fallible

/-!
# Net — Codec

The application frames of `codec.rs`: a header of 24 bytes and a payload within the limit the
transport supplies.
-/

namespace Net
open Lib

/-- The errors of the encoders. -/
inductive CodecError where
  | invalidLimit
  | oversized
  | wrongEpoch
  | invalidPayload (message : String)

/-- `HEADER_BYTES`. -/
def headerBytes : ℕ := 24

/-- The maximum application frame, the header included. -/
abbrev FrameLimit := { bytes : ℕ // headerBytes ≤ bytes ∧ bytes ≤ headerBytes + 65535 }

namespace FrameLimit

def new (maxApplicationFrameBytes : ℕ) : Except CodecError FrameLimit :=
  if h : headerBytes ≤ maxApplicationFrameBytes ∧ maxApplicationFrameBytes ≤ headerBytes +
    65535 then
    .ok ⟨maxApplicationFrameBytes, h⟩
  else .error .invalidLimit

def payloadBytes (limit : FrameLimit) : ℕ := limit.1 - headerBytes

end FrameLimit

inductive Lane where
  | control
  | input
  | state
  | outcomes
  | diagnostics

def Lane.toByte : Lane → UInt8
  | .control => 0
  | .input => 1
  | .state => 2
  | .outcomes => 3
  | .diagnostics => 4

structure FrameHeader where
  lane : Lane
  connection : ℕ
  sequence : ℕ

/-- `MAGIC`, the bytes of `NRG1`. -/
def magic : List UInt8 := [0x4e, 0x52, 0x47, 0x31]

/-- The bytes of a header before a payload of `length` bytes; the flags are reserved. -/
def FrameHeader.bytes (header : FrameHeader) (length : ℕ) : List UInt8 :=
  magic ++ leBytes 2 1 ++ leBytes 2 0 ++ [header.lane.toByte, 0] ++ leBytes 8 header.connection
    ++ leBytes 4 header.sequence ++ leBytes 2 length

theorem FrameHeader.length_bytes (header : FrameHeader) (length : ℕ) :
    (header.bytes length).length = headerBytes := by
  simp [bytes, magic, headerBytes]

def encodeFrame (header : FrameHeader) (payload : List UInt8) (limit : FrameLimit) :
    Except CodecError (List UInt8) :=
  if header.connection = 0 then .error .wrongEpoch
  else if limit.payloadBytes < payload.length then .error .oversized
  else .ok (header.bytes payload.length ++ payload)

/-- A frame is a header and a payload within the limit. -/
theorem encodeFrame_ok {header : FrameHeader} {payload bytes : List UInt8} {limit : FrameLimit}
    (h : encodeFrame header payload limit = .ok bytes) :
    payload.length ≤ limit.payloadBytes ∧ bytes = header.bytes payload.length ++ payload := by
  unfold encodeFrame at h
  split_ifs at h with _ hfits
  cases h
  exact ⟨not_lt.mp hfits, rfl⟩

/-- `encode_payload` of a value with its validation and its serialization; `sizeLimit` is what the
serializer says of a value over its limit. -/
def encodePayload (sizeLimit : String) (validation : Except CodecError Unit)
    (serialized : List UInt8) (limit : ℕ) : Except CodecError (List UInt8) :=
  if limit = 0 ∨ 65535 < limit then .error .invalidLimit
  else validation.bind fun _ =>
    if limit < serialized.length then .error (.invalidPayload sizeLimit) else .ok serialized

theorem encodePayload_ok {sizeLimit : String} {validation : Except CodecError Unit}
    {serialized payload : List UInt8} {limit : ℕ}
    (h : encodePayload sizeLimit validation serialized limit = .ok payload) :
    payload = serialized := by
  unfold encodePayload at h
  split at h
  · cases h
  obtain ⟨-, -, h⟩ := bind_eq_ok.mp h
  split at h <;> cases h
  rfl

end Net
