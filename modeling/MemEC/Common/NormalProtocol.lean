import MemEC.Common.KeyValue
import MemEC.Common.Protocol

/-!
# The messages of normal operations

The parsers for keys, values, updates and chunks. A parser sets the fields of
its header before it has checked that the key and the value are there.
-/

namespace MemEC.Common

open MemEC.Lib

/-- `KeyHeader`. -/
structure KeyHeader where
  keySize : ℕ
  key : ℕ
deriving DecidableEq

/-- `parseKeyHeader`. The `1` is `PROTO_KEY_SIZE`. -/
def parseKeyHeader (input : Input) (offset : ℕ) : Option KeyHeader :=
  let m := input.bytes
  if input.rest offset < 1 then none
  else
    let header : KeyHeader := ⟨read1Byte m offset, offset + 1⟩
    if 1 + header.keySize ≤ input.rest offset then some header else none

/-- `KeyValueUpdateHeader`. A null pointer is `0`. -/
structure KeyValueUpdateHeader where
  keySize : ℕ
  valueUpdateSize : ℕ
  valueUpdateOffset : ℕ
  key : ℕ
  valueUpdate : ℕ
deriving DecidableEq

/-- `parseKeyValueUpdateHeader`. The `7` is `PROTO_KEY_VALUE_UPDATE_SIZE`. -/
def parseKeyValueUpdateHeader (input : Input) (withValueUpdate : Bool) (offset : ℕ) :
    Option KeyValueUpdateHeader :=
  let m := input.bytes
  if input.rest offset < 7 then none
  else
    let keySize := read1Byte m offset
    let valueUpdateSize := read3Bytes m (offset + 1)
    let header : KeyValueUpdateHeader :=
      { keySize, valueUpdateSize
        valueUpdateOffset := read3Bytes m (offset + 4)
        key := offset + 7
        valueUpdate :=
          if withValueUpdate && valueUpdateSize ≠ 0 then offset + 7 + keySize else 0 }
    if u32 (7 + keySize + if withValueUpdate then valueUpdateSize else 0) ≤ input.rest offset then
      some header
    else none

/-- A backup of a key: what only data servers get. A parser that finds more than two sealed chunks
writes them behind the array of its header. -/
structure KeyBackupForData where
  timestamp : ℕ
  listId : ℕ
  stripeId : ℕ
  chunkId : ℕ
  sealedCount : ℕ
  sealed : List Metadata
deriving DecidableEq

/-- `KeyBackupHeader`. -/
structure KeyBackupHeader where
  isParity : Bool
  keySize : ℕ
  isLarge : Bool
  forData : Option KeyBackupForData
  key : ℕ
deriving DecidableEq

/-- The ids of a chunk. -/
def readMetadata (m : Memory) (ptr : ℕ) : Metadata :=
  ⟨read4Bytes m ptr, read4Bytes m (ptr + 4), read4Bytes m (ptr + 8)⟩

/-- `parseKeyBackupHeader`. The `3`, `17` and `12` are `PROTO_KEY_BACKUP_BASE_SIZE`,
`PROTO_KEY_BACKUP_FOR_DATA_SIZE` and `PROTO_KEY_BACKUP_SEALED_SIZE`. -/
def parseKeyBackupHeader (input : Input) (offset : ℕ) : Option KeyBackupHeader :=
  let m := input.bytes
  if input.rest offset < 3 then none
  else
    let isParity := read1Byte m offset != 0
    let keySize := read1Byte m (offset + 1)
    let isLarge := read1Byte m (offset + 2) != 0
    if isParity then
      if input.rest offset < 3 + keySize then none
      else some ⟨isParity, keySize, isLarge, none, offset + 3⟩
    else if input.rest offset < 3 + 17 + keySize then none
    else
      let sealedCount := read1Byte m (offset + 19)
      if input.rest offset < 3 + 17 + sealedCount * 12 + keySize then none
      else
        let forData : KeyBackupForData :=
          { timestamp := read4Bytes m (offset + 3)
            listId := read4Bytes m (offset + 7)
            stripeId := read4Bytes m (offset + 11)
            chunkId := read4Bytes m (offset + 15)
            sealedCount
            sealed := (List.range sealedCount).map fun i => readMetadata m (offset + 20 + 12 * i) }
        some ⟨isParity, keySize, isLarge, some forData, offset + 20 + 12 * sealedCount⟩

/-- `ChunkKeyHeader`. -/
structure ChunkKeyHeader where
  listId : ℕ
  stripeId : ℕ
  chunkId : ℕ
  keySize : ℕ
  key : ℕ
deriving DecidableEq

/-- `parseChunkKeyHeader`. The `13` is `PROTO_CHUNK_KEY_SIZE`. -/
def parseChunkKeyHeader (input : Input) (offset : ℕ) : Option ChunkKeyHeader :=
  let m := input.bytes
  if input.rest offset < 13 then none
  else
    let header : ChunkKeyHeader :=
      { listId := read4Bytes m offset
        stripeId := read4Bytes m (offset + 4)
        chunkId := read4Bytes m (offset + 8)
        keySize := read1Byte m (offset + 12)
        key := offset + 13 }
    if 13 + header.keySize ≤ input.rest offset then some header else none

/-- `ChunkKeyValueUpdateHeader`. -/
structure ChunkKeyValueUpdateHeader where
  listId : ℕ
  stripeId : ℕ
  chunkId : ℕ
  keySize : ℕ
  valueUpdateSize : ℕ
  valueUpdateOffset : ℕ
  chunkUpdateOffset : ℕ
  isLarge : Bool
  key : ℕ
  valueUpdate : ℕ
deriving DecidableEq

/-- `parseChunkKeyValueUpdateHeader`. The `23` is `PROTO_CHUNK_KEY_VALUE_UPDATE_SIZE`. -/
def parseChunkKeyValueUpdateHeader (input : Input) (withValueUpdate : Bool) (offset : ℕ) :
    Option ChunkKeyValueUpdateHeader :=
  let m := input.bytes
  if input.rest offset < 23 then none
  else
    let keySize := read1Byte m (offset + 12)
    let valueUpdateSize := read3Bytes m (offset + 13)
    let isLarge := read1Byte m (offset + 22) != 0
    let header : ChunkKeyValueUpdateHeader :=
      { listId := read4Bytes m offset
        stripeId := read4Bytes m (offset + 4)
        chunkId := read4Bytes m (offset + 8)
        keySize, valueUpdateSize
        valueUpdateOffset := read3Bytes m (offset + 16)
        chunkUpdateOffset := read3Bytes m (offset + 19)
        isLarge
        key := offset + 23
        valueUpdate :=
          if withValueUpdate && valueUpdateSize ≠ 0 then offset + 23 + Key.extent keySize isLarge
          else 0 }
    if u32 (23 + Key.extent keySize isLarge + if withValueUpdate then valueUpdateSize else 0) ≤
        input.rest offset then some header
    else none

/-- `KeyValueHeader`. -/
structure KeyValueHeader where
  keySize : ℕ
  valueSize : ℕ
  key : ℕ
  splitOffset : ℕ
  value : ℕ
deriving DecidableEq

/-- `parseKeyValueHeader`. The `4` is `PROTO_KEY_VALUE_SIZE`. -/
def parseKeyValueHeader (cfg : GlobalConfig) (input : Input) (offset : ℕ)
    (enableSplit isLarge : Bool) : Option KeyValueHeader :=
  let m := input.bytes
  if input.rest offset < 4 then none
  else
    let keySize := read1Byte m offset
    let valueSize := read3Bytes m (offset + 1)
    let key := offset + 4
    if enableSplit && LargeObjectUtil.isLarge cfg keySize valueSize then
      let splitOffset := read3Bytes m (key + keySize)
      let splitSize := KeyValue.payloadSize cfg keySize valueSize splitOffset
      if input.rest offset < u32 (4 + 3 + keySize + splitSize) then none
      else some ⟨keySize, valueSize, key, splitOffset,
        if valueSize ≠ 0 then key + keySize + 3 else 0⟩
    else if input.rest offset < u32 (4 + keySize + valueSize) then none
    else some ⟨keySize, valueSize, key, 0,
      if valueSize ≠ 0 then key + Key.extent keySize isLarge else 0⟩

/-- `ChunkUpdateHeader`. -/
structure ChunkUpdateHeader where
  listId : ℕ
  stripeId : ℕ
  chunkId : ℕ
  offset : ℕ
  length : ℕ
  updatingChunkId : ℕ
  delta : ℕ
deriving DecidableEq

/-- `parseChunkUpdateHeader`. The `24` is `PROTO_CHUNK_UPDATE_SIZE`. -/
def parseChunkUpdateHeader (input : Input) (withDelta : Bool) (offset : ℕ) :
    Option ChunkUpdateHeader :=
  let m := input.bytes
  if input.rest offset < 24 then none
  else
    let length := read4Bytes m (offset + 16)
    let header : ChunkUpdateHeader :=
      { listId := read4Bytes m offset
        stripeId := read4Bytes m (offset + 4)
        chunkId := read4Bytes m (offset + 8)
        offset := read4Bytes m (offset + 12)
        length
        updatingChunkId := read4Bytes m (offset + 20)
        delta := if withDelta && length ≠ 0 then offset + 24 else 0 }
    if u32 (24 + if withDelta then length else 0) ≤ input.rest offset then some header else none

/-! ## Chunks -/

/-- `parseChunkHeader`. The header is a `Metadata`, the `12` is `PROTO_CHUNK_SIZE`. -/
def parseChunkHeader (input : Input) (offset : ℕ) : Option Metadata :=
  if input.rest offset < 12 then none else some (readMetadata input.bytes offset)

/-- `ChunksHeader`. -/
structure ChunksHeader where
  listId : ℕ
  chunkId : ℕ
  numStripes : ℕ
  stripeIds : ℕ
deriving DecidableEq

/-- `parseChunksHeader`. The `12` is `PROTO_CHUNKS_SIZE`. -/
def parseChunksHeader (input : Input) (offset : ℕ) : Option ChunksHeader :=
  let m := input.bytes
  if input.rest offset < 12 then none
  else
    let numStripes := read4Bytes m (offset + 8)
    if input.rest offset < u32 (12 + numStripes * 4) then none
    else some ⟨read4Bytes m offset, read4Bytes m (offset + 4), numStripes, offset + 12⟩

/-- `ChunkDataHeader`. Without seal indicators their pointer keeps the value that it has. -/
structure ChunkDataHeader where
  sealIndicatorCount : ℕ
  listId : ℕ
  stripeId : ℕ
  chunkId : ℕ
  size : ℕ
  offset : ℕ
  sealIndicator : Option ℕ
  data : ℕ
deriving DecidableEq

/-- `parseChunkDataHeader`. The `21` is `PROTO_CHUNK_DATA_SIZE`. -/
def parseChunkDataHeader (input : Input) (offset : ℕ) : Option ChunkDataHeader :=
  let m := input.bytes
  if input.rest offset < 21 then none
  else
    let sealIndicatorCount := read1Byte m offset
    let size := read4Bytes m (offset + 13)
    let header : ChunkDataHeader :=
      { sealIndicatorCount
        listId := read4Bytes m (offset + 1)
        stripeId := read4Bytes m (offset + 5)
        chunkId := read4Bytes m (offset + 9)
        size
        offset := read4Bytes m (offset + 17)
        sealIndicator := if sealIndicatorCount ≠ 0 then some (offset + 21) else none
        data := if size ≠ 0 then offset + 21 + sealIndicatorCount else 0 }
    if u32 (21 + sealIndicatorCount + size) ≤ input.rest offset then some header else none

/-- `ChunkKeyValueHeader`, and the pointer to the deleted keys and the objects. The receiver reads
these one after the other with `parseKeyHeader` and `parseKeyValueHeader`. -/
structure ChunkKeyValueHeader where
  listId : ℕ
  stripeId : ℕ
  chunkId : ℕ
  deleted : ℕ
  count : ℕ
  isCompleted : Bool
  dataPtr : ℕ
deriving DecidableEq

/-- `parseChunkKeyValueHeader`. The `21` is `PROTO_CHUNK_KEY_VALUE_SIZE`. -/
def parseChunkKeyValueHeader (input : Input) (offset : ℕ) : Option ChunkKeyValueHeader :=
  let m := input.bytes
  if input.rest offset < 21 then none
  else some
    { listId := read4Bytes m offset
      stripeId := read4Bytes m (offset + 4)
      chunkId := read4Bytes m (offset + 8)
      deleted := read4Bytes m (offset + 12)
      count := read4Bytes m (offset + 16)
      isCompleted := read1Byte m (offset + 20) != 0
      dataPtr := offset + 21 }

/-! ## Round trips -/

section RoundTrip

variable {input : Input} {offset : ℕ}

theorem parseKeyHeader_eq {key : Key} {bytes : List UInt8}
    (h : input.bytes.Holds offset (beBytes 1 key.size ++ bytes)) (hkey : key.size < 2 ^ 8)
    (hsize : input.size < 2 ^ 64) (hrest : offset + 1 + key.size ≤ input.size) :
    parseKeyHeader input offset = some ⟨key.size, offset + 1⟩ := by
  obtain ⟨h0, -⟩ := Memory.holds_append.mp h
  unfold parseKeyHeader
  rw [Input.rest_eq hsize (by omega), if_neg (by omega)]
  dsimp only
  rw [read1Byte_eq h0 hkey, if_pos (by omega)]

theorem parseKeyValueUpdateHeader_eq {keySize valueUpdateSize valueUpdateOffset : ℕ}
    {bytes : List UInt8}
    (h : input.bytes.Holds offset (beBytes 1 keySize ++ beBytes 3 valueUpdateSize ++
      beBytes 3 valueUpdateOffset ++ bytes))
    (hkey : keySize < 2 ^ 8) (hvalue : valueUpdateSize < 2 ^ 24)
    (hoffset : valueUpdateOffset < 2 ^ 24) (hsize : input.size < 2 ^ 64)
    (hrest : offset + 7 + keySize + valueUpdateSize ≤ input.size) :
    parseKeyValueUpdateHeader input true offset = some ⟨keySize, valueUpdateSize,
      valueUpdateOffset, offset + 7,
      if valueUpdateSize ≠ 0 then offset + 7 + keySize else 0⟩ := by
  simp only [Memory.holds_append, List.length_append, length_beBytes] at h
  obtain ⟨⟨⟨h0, h1⟩, h4⟩, -⟩ := h
  unfold parseKeyValueUpdateHeader
  rw [Input.rest_eq hsize (by omega), if_neg (by omega)]
  dsimp only
  rw [read1Byte_eq h0 hkey, read3Bytes_eq h1 hvalue, read3Bytes_eq h4 hoffset, if_pos rfl,
    u32_eq (by omega), if_pos (by omega)]
  simp only [Bool.true_and, decide_eq_true_eq]

end RoundTrip

end MemEC.Common
