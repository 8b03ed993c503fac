import SdtTr369.UspTypes

/-!
# USP records and their packed sizes

The records of `usp-record.pb-c.h` as far as the agent fills or checks them,
and the number of bytes protobuf-c packs them into. Every field number is below
16, so each tag takes one byte, and a field that holds its default is left out.
-/

namespace UspRecord

open UspTypes

abbrev Bytes := List UInt8

/-- `payload_sar_state`. A peer can send any number in the field: `other n`
is the number `4 + n`, which the enumeration does not name. -/
inductive SarState where
  | none
  | begin
  | inprocess
  | complete
  | other (n : Nat)
  deriving DecidableEq, Repr

structure SessionContextRecord where
  sessionId : UInt64
  sequenceId : UInt64
  expectedId : UInt64
  retransmitId : UInt64
  payloadSarState : SarState
  payloadrecSarState : SarState
  payload : List Bytes
  deriving DecidableEq, Repr

inductive RecordType where
  | noSessionContext (payload : Bytes)
  | sessionContext (ctx : SessionContextRecord)
  | disconnect (reasonCode : Nat)
  deriving DecidableEq, Repr

structure Record where
  version : Str
  toId : Str
  fromId : Str
  recordType : RecordType
  deriving DecidableEq, Repr

/-- `AGENT_CURRENT_PROTOCOL_VERSION`. -/
def agentCurrentProtocolVersion : Str := ['1', '.', '2']

/-! ## Packed sizes -/

def uint32Size (v : Nat) : Nat :=
  if v < 2 ^ 7 then 1
  else if v < 2 ^ 14 then 2
  else if v < 2 ^ 21 then 3
  else if v < 2 ^ 28 then 4
  else 5

def uint64Size (v : UInt64) : Nat :=
  let upper := v.toNat / 2 ^ 32
  if upper = 0 then uint32Size v.toNat
  else if upper < 2 ^ 3 then 5
  else if upper < 2 ^ 10 then 6
  else if upper < 2 ^ 17 then 7
  else if upper < 2 ^ 24 then 8
  else if upper < 2 ^ 31 then 9
  else 10

/-- The number of a SAR state on the wire. -/
def SarState.code : SarState → Nat
  | .none => 0
  | .begin => 1
  | .inprocess => 2
  | .complete => 3
  | .other n => 4 + n

/-- An enumeration is packed as an `int32`, which takes ten bytes when negative. -/
def int32Size (v : Nat) : Nat := if 2 ^ 31 ≤ v then 10 else uint32Size v

/-- A field of `len` bytes behind its tag and length. -/
def delimitedSize (len : Nat) : Nat := 1 + uint32Size len + len

def stringFieldSize (s : Str) : Nat := if s = [] then 0 else delimitedSize s.length

def uint64FieldSize (v : UInt64) : Nat := if v = 0 then 0 else 1 + uint64Size v

def sarFieldSize (s : SarState) : Nat := if s.code = 0 then 0 else 1 + int32Size s.code

/-- The packed size of the context when its payloads have the lengths `lens`. -/
def SessionContextRecord.packedSizeWith (ctx : SessionContextRecord) (lens : List Nat) : Nat :=
  uint64FieldSize ctx.sessionId + uint64FieldSize ctx.sequenceId +
    uint64FieldSize ctx.expectedId + uint64FieldSize ctx.retransmitId +
    sarFieldSize ctx.payloadSarState + sarFieldSize ctx.payloadrecSarState +
    (lens.map delimitedSize).sum

/-- `usp_record__record__get_packed_size` of a plaintext record from `fromId`
to `toId` that carries the session context, with payloads of lengths `lens`. -/
def packedSizeWith (toId fromId : Str) (ctx : SessionContextRecord) (lens : List Nat) : Nat :=
  stringFieldSize agentCurrentProtocolVersion + stringFieldSize toId + stringFieldSize fromId +
    delimitedSize (ctx.packedSizeWith lens)

def packedSize (toId fromId : Str) (ctx : SessionContextRecord) : Nat :=
  packedSizeWith toId fromId ctx (ctx.payload.map List.length)

/-- `UINT64_MAX`. -/
def uint64Max : UInt64 := 0xFFFFFFFFFFFFFFFF

/-- The size as protobuf-c computes it, in a `size_t` of 32 bits; the payloads need not be
there. -/
def getPackedSize (toId fromId : Str) (ctx : SessionContextRecord) (lens : List Nat) : UInt32 :=
  UInt32.ofNat (stringFieldSize agentCurrentProtocolVersion + stringFieldSize toId +
    stringFieldSize fromId + delimitedSize (ctx.packedSizeWith lens % 2 ^ 32))

/-- The context with every field at its longest. -/
def heaviest (ctx : SessionContextRecord) : SessionContextRecord :=
  { ctx with
    sessionId := ctx.sessionId ||| 1
    expectedId := ctx.expectedId ||| 1
    sequenceId := uint64Max
    payloadSarState := .begin
    payloadrecSarState := .begin }

/-- `estimated_header_size`. The subtraction is that of C's `unsigned`. -/
def estimatedHeaderSize (toId fromId : Str) (ctx : SessionContextRecord)
    (maxRecordSize : UInt32) : UInt32 :=
  getPackedSize toId fromId (heaviest ctx) [maxRecordSize.toNat] - maxRecordSize

/-- `ComputePayloadCapacity`. -/
def computePayloadCapacity (toId fromId : Str) (ctx : SessionContextRecord)
    (maxRecordSize : UInt32) : UInt32 :=
  maxRecordSize - estimatedHeaderSize toId fromId ctx maxRecordSize

end UspRecord
