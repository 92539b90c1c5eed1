import MemEC.Common.Protocol
import MemEC.Lib.Packing

/-!
# The heartbeat messages

A heartbeat carries the chunks that were sealed and the key operations that are
pending on a server. The generator writes what fits into the buffer, takes it
out of its two sets, and puts the two counts into the header at the end.
-/

namespace MemEC.Common

open MemEC.Lib

/-! ## Records -/

/-- The ids are `uint32_t`. -/
structure Metadata.Fits (md : Metadata) : Prop where
  listId : md.listId < 2 ^ 32
  stripeId : md.stripeId < 2 ^ 32
  chunkId : md.chunkId < 2 ^ 32

/-- The three ids as they are written. -/
def Metadata.bytes (md : Metadata) : List UInt8 :=
  beBytes 4 md.listId ++ beBytes 4 md.stripeId ++ beBytes 4 md.chunkId

/-- An entry of the pending operations, `std::unordered_map<Key, OpMetadata>`. -/
structure KeyOp where
  key : Key
  metadata : Metadata
  opcode : UInt8
  timestamp : ℕ
deriving DecidableEq

namespace KeyOp

/-- The size of the key is an `uint8_t`, the timestamp an `uint32_t`. -/
structure Fits (op : KeyOp) : Prop where
  keySize : op.key.size < 2 ^ 8
  metadata : op.metadata.Fits
  timestamp : op.timestamp < 2 ^ 32

/-- The bytes of the record. The `19` is `PROTO_KEY_OP_METADATA_SIZE`. -/
def size (op : KeyOp) : ℕ := 19 + Key.extent op.key.size op.key.isLarge

/-- The record as it is written. -/
def bytes (op : KeyOp) : List UInt8 :=
  beBytes 1 op.key.size ++ op.opcode :: op.metadata.bytes ++ beBytes 4 op.timestamp ++
    boolByte op.key.isLarge :: op.key.data

end KeyOp

@[simp] theorem Metadata.length_bytes (md : Metadata) : md.bytes.length = 12 := by
  simp [Metadata.bytes]

@[simp] theorem KeyOp.length_bytes (op : KeyOp) : op.bytes.length = op.size := by
  simp only [KeyOp.bytes, KeyOp.size, List.length_append, List.length_cons, length_beBytes,
    Metadata.length_bytes, op.key.length_data]
  omega

/-! ## Generating -/

/-- A heartbeat message with the two counts, and what is left in the two sets. -/
structure HeartbeatMessage where
  bytes : List UInt8
  sealedCount : ℕ
  opsCount : ℕ
  isCompleted : Bool
  sealed : List Metadata
  ops : List KeyOp

/-- What follows the header of a heartbeat. -/
def heartbeatPayload (timestamp : ℕ) (isLast : Bool) (sealed : List Metadata)
    (ops : List KeyOp) : List UInt8 :=
  beBytes 4 timestamp ++ beBytes 4 sealed.length ++ beBytes 4 ops.length ++
    boolByte isLast :: (sealed.flatMap Metadata.bytes ++ ops.flatMap KeyOp.bytes)

/-- `generateHeartbeatMessage`, with the sets in the order of the iteration. The `29` is
`PROTO_HEADER_SIZE + PROTO_HEARTBEAT_SIZE`, the `12` is `PROTO_METADATA_SIZE`. -/
def Protocol.generateHeartbeatMessage (p : Protocol) (magic receiver opcode : UInt8)
    (instanceId requestId timestamp : ℕ) (sealed : List Metadata) (ops : List KeyOp) :
    HeartbeatMessage :=
  let sealedCount := fit p.bufferSize (fun _ => 12) 29 sealed
  let opsCount := fit p.bufferSize KeyOp.size (29 + 12 * sealedCount) ops
  let isCompleted : Bool := sealedCount = sealed.length && opsCount = ops.length
  let payload :=
    heartbeatPayload timestamp isCompleted (sealed.take sealedCount) (ops.take opsCount)
  { bytes := p.generateHeader magic receiver opcode payload.length instanceId requestId 0 false ++
      payload
    sealedCount, opsCount, isCompleted
    sealed := sealed.drop sealedCount
    ops := ops.drop opsCount }

/-! ## Parsing -/

/-- `HeartbeatHeader`. -/
structure HeartbeatHeader where
  timestamp : ℕ
  sealed : ℕ
  keys : ℕ
  isLast : Bool
deriving DecidableEq

/-- `KeyOpMetadataHeader`. -/
structure KeyOpMetadataHeader where
  keySize : ℕ
  opcode : UInt8
  metadata : Metadata
  timestamp : ℕ
  isLarge : Bool
  key : ℕ
deriving DecidableEq

/-- `parseHeartbeatHeader`. -/
def parseHeartbeatHeader (input : Input) (offset : ℕ) : Option HeartbeatHeader :=
  let m := input.bytes
  if input.rest offset < 13 then none
  else some
    { timestamp := read4Bytes m offset
      sealed := read4Bytes m (offset + 4)
      keys := read4Bytes m (offset + 8)
      isLast := read1Byte m (offset + 12) != 0 }

/-- `parseMetadataHeader`: the number of bytes, if it is set, and the header, if it is accepted. -/
def parseMetadataHeader (input : Input) (offset : ℕ) : Option ℕ × Option Metadata :=
  let m := input.bytes
  if input.rest offset < 12 then (none, none)
  else (some 12, some
    { listId := read4Bytes m offset
      stripeId := read4Bytes m (offset + 4)
      chunkId := read4Bytes m (offset + 8) })

/-- `parseKeyOpMetadataHeader`: as before. The number of bytes is set before the key is checked. -/
def parseKeyOpMetadataHeader (input : Input) (offset : ℕ) :
    Option ℕ × Option KeyOpMetadataHeader :=
  let m := input.bytes
  if input.rest offset < 19 then (none, none)
  else
    let header : KeyOpMetadataHeader :=
      { keySize := read1Byte m offset
        opcode := m (offset + 1)
        metadata := ⟨read4Bytes m (offset + 2), read4Bytes m (offset + 6),
          read4Bytes m (offset + 10)⟩
        timestamp := read4Bytes m (offset + 14)
        isLarge := read1Byte m (offset + 18) != 0
        key := offset + 19 }
    let bytes := 19 + Key.extent header.keySize header.isLarge
    (some bytes, if bytes ≤ input.rest offset then some header else none)

/-! ## Lengths -/

theorem length_flatMap_metadata (sealed : List Metadata) :
    (sealed.flatMap Metadata.bytes).length = 12 * sealed.length := by
  simp [List.length_flatMap, Nat.mul_comm]

theorem length_flatMap_keyOp (ops : List KeyOp) :
    (ops.flatMap KeyOp.bytes).length = (ops.map KeyOp.size).sum := by
  simp only [List.length_flatMap, KeyOp.length_bytes]

theorem length_heartbeatPayload (timestamp : ℕ) (isLast : Bool) (sealed : List Metadata)
    (ops : List KeyOp) : (heartbeatPayload timestamp isLast sealed ops).length =
      13 + 12 * sealed.length + (ops.map KeyOp.size).sum := by
  simp only [heartbeatPayload, List.length_append, List.length_cons, length_beBytes,
    length_flatMap_metadata, length_flatMap_keyOp]
  omega

theorem length_le_sum_size (ops : List KeyOp) : ops.length ≤ (ops.map KeyOp.size).sum := by
  induction ops with
  | nil => exact le_rfl
  | cons op ops ih =>
    rw [List.map_cons, List.sum_cons, List.length_cons, KeyOp.size]
    omega

/-- A message stays within a buffer that has room for the header. -/
theorem Protocol.length_generateHeartbeatMessage_le (p : Protocol) (magic receiver opcode : UInt8)
    (instanceId requestId timestamp : ℕ) (sealed : List Metadata) (ops : List KeyOp) :
    (p.generateHeartbeatMessage magic receiver opcode instanceId requestId timestamp sealed
      ops).bytes.length ≤ max 29 p.bufferSize := by
  have hcount : fit p.bufferSize (fun _ => 12) 29 sealed ≤ sealed.length := fit_le_length
  have hsealed := sum_take_fit_le (fun _ => 12) 29 sealed p.bufferSize
  have hops := sum_take_fit_le KeyOp.size (29 + 12 * fit p.bufferSize (fun _ => 12) 29 sealed) ops
    p.bufferSize
  rw [List.map_const', List.sum_replicate, List.length_take, Nat.min_eq_left hcount,
    smul_eq_mul, Nat.mul_comm] at hsealed
  simp only [generateHeartbeatMessage, List.length_append, length_generateHeader,
    length_heartbeatPayload, List.length_take, Nat.min_eq_left hcount]
  omega

/-! ## Reading what was written -/

section RoundTrip

variable {input : Input} {offset : ℕ}

theorem parseMetadataHeader_eq {md : Metadata} (h : input.bytes.Holds offset md.bytes)
    (hmd : md.Fits) (hsize : input.size < 2 ^ 64) (hrest : offset + 12 ≤ input.size) :
    parseMetadataHeader input offset = (some 12, some md) := by
  simp only [Metadata.bytes, Memory.holds_append, List.length_append, length_beBytes] at h
  obtain ⟨⟨h0, h4⟩, h8⟩ := h
  unfold parseMetadataHeader
  rw [Input.rest_eq hsize (by omega), if_neg (by omega), read4Bytes_eq h0 hmd.listId,
    read4Bytes_eq h4 hmd.stripeId, read4Bytes_eq h8 hmd.chunkId]

theorem parseKeyOpMetadataHeader_eq {op : KeyOp} (h : input.bytes.Holds offset op.bytes)
    (hop : op.Fits) (hsize : input.size < 2 ^ 64) (hrest : offset + op.size ≤ input.size) :
    parseKeyOpMetadataHeader input offset = (some op.size, some ⟨op.key.size, op.opcode,
      op.metadata, op.timestamp, op.key.isLarge, offset + 19⟩) := by
  simp only [KeyOp.bytes, Metadata.bytes, Memory.holds_append, Memory.holds_cons,
    List.length_append, List.length_cons, length_beBytes] at h
  obtain ⟨⟨⟨h0, h1, ⟨h2, h6⟩, h10⟩, h14⟩, h18, -⟩ := h
  have hle : 19 ≤ op.size := Nat.le_add_right _ _
  unfold parseKeyOpMetadataHeader
  rw [Input.rest_eq hsize (by omega), if_neg (by omega)]
  dsimp only
  rw [read1Byte_eq h0 hop.keySize, h1, read4Bytes_eq h2 hop.metadata.listId,
    read4Bytes_eq h6 hop.metadata.stripeId, read4Bytes_eq h10 hop.metadata.chunkId,
    read4Bytes_eq h14 hop.timestamp, read1Byte_bool h18]
  have hfits : 19 + Key.extent op.key.size op.key.isLarge ≤ input.size - offset := by
    rw [← KeyOp.size]
    omega
  rw [if_pos hfits]
  rfl

/-- The key that the parsed header points to. -/
theorem ofMemory_key {m : Memory} {op : KeyOp} (h : m.Holds offset op.bytes) :
    Key.ofMemory m (offset + 19) op.key.size op.key.isLarge = op.key := by
  simp only [KeyOp.bytes, Memory.holds_append, Memory.holds_cons, List.length_append,
    List.length_cons, length_beBytes, Metadata.length_bytes] at h
  exact Key.ofMemory_eq h.2.2

theorem parseHeartbeatHeader_eq {timestamp : ℕ} {isLast : Bool} {sealed : List Metadata}
    {ops : List KeyOp}
    (h : input.bytes.Holds offset (heartbeatPayload timestamp isLast sealed ops))
    (htimestamp : timestamp < 2 ^ 32) (hsealed : sealed.length < 2 ^ 32)
    (hops : ops.length < 2 ^ 32) (hsize : input.size < 2 ^ 64)
    (hrest : offset + 13 ≤ input.size) :
    parseHeartbeatHeader input offset =
      some ⟨timestamp, sealed.length, ops.length, isLast⟩ := by
  simp only [heartbeatPayload, Memory.holds_append, Memory.holds_cons, List.length_append,
    length_beBytes] at h
  obtain ⟨⟨⟨h0, h4⟩, h8⟩, h12, -⟩ := h
  unfold parseHeartbeatHeader
  rw [Input.rest_eq hsize (by omega), if_neg (by omega), read4Bytes_eq h0 htimestamp,
    read4Bytes_eq h4 hsealed, read4Bytes_eq h8 hops, read1Byte_bool h12]

end RoundTrip

end MemEC.Common
