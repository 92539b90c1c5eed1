import MemEC.Common.DegradedProtocol
import MemEC.Common.RecoveryProtocol
import MemEC.Lib.Extents

/-!
# What a parsed header refers to

The fields of a message, and the keys, values and array elements that the parsed
header points to, as extents of the buffer that the message was parsed from. The
size of the message is what its sender declares it to be.
-/

namespace MemEC.Common

open MemEC.Lib

/-! ## Keys one after the other -/

/-- `count` keys from `ptr` on, each behind its size. -/
def keyExtents (m : Memory) : ℕ → ℕ → List Extent
  | _, 0 => []
  | ptr, count + 1 =>
    let keySize := read1Byte m ptr
    ⟨ptr, 1 + keySize⟩ :: keyExtents m (ptr + 1 + keySize) count

/-- Two arrays of `count` pairs of ids. -/
def idExtents (first second count : ℕ) : List Extent := [⟨first, 8 * count⟩, ⟨second, 8 * count⟩]

def KeyHeader.extents (header : KeyHeader) (isLarge : Bool) : List Extent :=
  [⟨header.key - 1, 1⟩, ⟨header.key, Key.extent header.keySize isLarge⟩]

def KeyBackupHeader.extents (header : KeyBackupHeader) (offset : ℕ) : List Extent :=
  match header.forData with
  | none => [⟨offset, 3⟩, ⟨header.key, Key.extent header.keySize header.isLarge⟩]
  | some forData => [⟨offset, 20⟩, ⟨offset + 20, 12 * forData.sealedCount⟩,
      ⟨header.key, Key.extent header.keySize header.isLarge⟩]

def ChunkKeyHeader.extents (header : ChunkKeyHeader) (offset : ℕ) : List Extent :=
  [⟨offset, 13⟩, ⟨header.key, header.keySize⟩]

def ChunkKeyValueUpdateHeader.extents (header : ChunkKeyValueUpdateHeader)
    (withValueUpdate : Bool) (offset : ℕ) : List Extent :=
  [⟨offset, 23⟩, ⟨header.key, Key.extent header.keySize header.isLarge⟩,
    ⟨header.valueUpdate, if withValueUpdate then header.valueUpdateSize else 0⟩]

/-- The value of a split is as long as the code takes it to be. -/
def KeyValueHeader.extents (header : KeyValueHeader) (cfg : GlobalConfig)
    (enableSplit isLarge : Bool) : List Extent :=
  let isSplit := enableSplit && LargeObjectUtil.isLarge cfg header.keySize header.valueSize
  [⟨header.key - 4, 4⟩, ⟨header.key, Key.extent header.keySize (isSplit || isLarge)⟩,
    ⟨header.value,
      if header.valueSize = 0 then 0
      else if isSplit then
        KeyValue.payloadSize cfg header.keySize header.valueSize header.splitOffset
      else header.valueSize⟩]

def KeyValueUpdateHeader.extents (header : KeyValueUpdateHeader) (withValueUpdate isLarge : Bool) :
    List Extent :=
  [⟨header.key - 7, 7⟩, ⟨header.key, Key.extent header.keySize isLarge⟩,
    ⟨header.valueUpdate, if withValueUpdate then header.valueUpdateSize else 0⟩]

def ChunkUpdateHeader.extents (header : ChunkUpdateHeader) (withDelta : Bool) (offset : ℕ) :
    List Extent :=
  [⟨offset, 24⟩, ⟨header.delta, if withDelta then header.length else 0⟩]

def ChunksHeader.extents (header : ChunksHeader) (offset : ℕ) : List Extent :=
  [⟨offset, 12⟩, ⟨header.stripeIds, 4 * header.numStripes⟩]

def ChunkDataHeader.extents (header : ChunkDataHeader) (offset : ℕ) : List Extent :=
  [⟨offset, 21⟩, ⟨header.sealIndicator.getD 0, header.sealIndicatorCount⟩,
    ⟨header.data, header.size⟩]

/-- The keys are those that are read: none if the caller does not ask for them. -/
def DeltaAcknowledgementHeader.extents (header : DeltaAcknowledgementHeader) (m : Memory)
    (timestamps requests : Bool) (offset : ℕ) : List Extent :=
  ⟨offset, 10⟩ :: if timestamps then
    ⟨offset + 10, 4 * header.tsCount⟩ :: if requests then
      keyExtents m (offset + 10 + 4 * header.tsCount) header.keyCount
    else []
  else []

def PromoteBackupServerHeader.extents (header : PromoteBackupServerHeader) (m : Memory)
    (offset : ℕ) : List Extent :=
  ⟨offset, 14⟩ :: match header.arrays with
    | none => []
    | some (metadata, keys) =>
      ⟨metadata, 12 * header.chunkCount⟩ :: keyExtents m keys header.unsealedCount

def ReconstructionHeader.extents (header : ReconstructionHeader) (isRequest : Bool)
    (offset : ℕ) : List Extent :=
  [⟨offset, 12⟩, ⟨header.stripeIds, if isRequest then 4 * header.numStripes else 0⟩]

def RemappingLockHeader.extents (header : RemappingLockHeader) (offset : ℕ) : List Extent :=
  ⟨offset, 6⟩ :: ⟨header.key, Key.extent header.keySize header.isLarge⟩ ::
    idExtents header.original header.remapped header.remappedCount

/-- Whether there is a split offset depends on the sizes. -/
def DegradedSetHeader.extents (header : DegradedSetHeader) (cfg : GlobalConfig) (offset : ℕ) :
    List Extent :=
  let isLarge := LargeObjectUtil.isLarge cfg header.keySize header.valueSize
  ⟨offset, 17⟩ :: ⟨header.key, Key.extent header.keySize isLarge⟩ ::
    ⟨header.value, KeyValue.payloadSize cfg header.keySize header.valueSize header.splitOffset⟩ ::
    idExtents header.original header.remapped header.remappedCount

/-- The split offset is always there. -/
def DegradedLockReqHeader.extents (header : DegradedLockReqHeader) (offset : ℕ) : List Extent :=
  ⟨offset, 6⟩ :: ⟨header.key, header.keySize + 3⟩ ::
    idExtents header.original header.reconstructed header.reconstructedCount

/-- The fields of fixed size behind the key are 14 bytes, or the 4 bytes of a count. -/
def DegradedLockResHeader.extents (header : DegradedLockResHeader) (offset : ℕ) : List Extent :=
  ⟨offset, 3⟩ :: ⟨header.key, Key.extent header.keySize header.isLarge⟩ ::
    if header.type = 1 ∨ header.type = 2 then
      ⟨header.survivingChunkIds - 14, 14⟩ ::
        ⟨header.survivingChunkIds, 4 * header.numSurvivingChunkIds⟩ ::
        idExtents header.original header.reconstructed header.reconstructedCount
    else if header.type = 4 then
      ⟨header.original - 4, 4⟩ :: idExtents header.original header.remapped header.remappedCount
    else []

def DegradedReqHeader.extents (header : DegradedReqHeader) (offset : ℕ) : List Extent :=
  ⟨offset, 15⟩ :: ⟨header.survivingChunkIds, 4 * header.numSurvivingChunkIds⟩ ::
    idExtents header.original header.reconstructed header.reconstructedCount ++
    match header.body with
    | .inl key => key.extents header.isLarge
    | .inr keyValueUpdate => keyValueUpdate.extents true header.isLarge

def ForwardKeyHeader.extents (header : ForwardKeyHeader) (offset : ℕ) : List Extent :=
  [⟨offset, 17⟩, ⟨header.key, header.keySize⟩] ++
    (match header.value with
      | none => []
      | some value => [⟨value, header.valueSize⟩]) ++
    match header.update with
    | none => []
    | some ⟨valueUpdateSize, _, some valueUpdate⟩ =>
      [⟨valueUpdate - 6, 6⟩, ⟨valueUpdate, valueUpdateSize⟩]
    | some ⟨_, _, none⟩ => [⟨header.key + header.keySize, 6⟩]

def ListStripeKeyHeader.extents (header : ListStripeKeyHeader) (isLarge : Bool) (offset : ℕ) :
    List Extent :=
  [⟨offset, 9⟩, ⟨header.key, Key.extent header.keySize isLarge⟩]

/-! ## The parsers -/

/-- The parsers, with the arguments that they have besides the buffer. -/
inductive Parser
  | acknowledgement
  | deltaAcknowledgement (timestamps requests : Bool)
  | promoteBackupServer (isRequest : Bool)
  | reconstruction (isRequest : Bool)
  | remappingLock
  | degradedSet
  | degradedLockReq
  | degradedLockRes (header : DegradedLockResHeader)
  | degradedReq (opcode : UInt8) (body : KeyHeader ⊕ KeyValueUpdateHeader)
  | forwardKeyReq
  | forwardKeyRes
  | listStripeKey (isLarge : Bool)
  | degradedReleaseRes
  | chunk
  | chunks
  | chunkData
  | chunkKeyValue
  | key
  | keyBackup
  | chunkKey
  | chunkKeyValueUpdate (withValueUpdate : Bool)
  | keyValue (enableSplit isLarge : Bool)
  | keyValueUpdate (withValueUpdate : Bool)
  | chunkUpdate (withDelta : Bool)

namespace Parser

variable (cfg : GlobalConfig) (input : Input) (offset : ℕ)

/-- What the header refers to, if the parser accepts the message. -/
def parse : Parser → Option (List Extent)
  | acknowledgement => (parseAcknowledgementHeader input offset).map fun _ => [⟨offset, 8⟩]
  | deltaAcknowledgement timestamps requests =>
    (parseDeltaAcknowledgementHeader input timestamps requests offset).map fun parsed =>
      parsed.1.extents input.bytes timestamps requests offset
  | promoteBackupServer isRequest =>
    (parsePromoteBackupServerHeader input isRequest offset).map fun header =>
      header.extents input.bytes offset
  | reconstruction isRequest =>
    (parseReconstructionHeader input isRequest offset).map fun header =>
      header.extents isRequest offset
  | remappingLock => (parseRemappingLockHeader input offset).map fun header => header.extents offset
  | degradedSet =>
    (parseDegradedSetHeader cfg input offset).map fun header => header.extents cfg offset
  | degradedLockReq =>
    (parseDegradedLockReqHeader input offset).map fun header => header.extents offset
  | degradedLockRes header =>
    (parseDegradedLockResHeader input offset header).map fun header => header.extents offset
  | degradedReq opcode body =>
    (parseDegradedReqHeader input opcode offset body).map fun header => header.extents offset
  | forwardKeyReq => (parseForwardKeyReqHeader input offset).map fun header => header.extents offset
  | forwardKeyRes => (parseForwardKeyResHeader input offset).map fun header => header.extents offset
  | listStripeKey isLarge =>
    (parseListStripeKeyHeader input isLarge offset).map fun header => header.extents isLarge offset
  | degradedReleaseRes => (parseDegradedReleaseResHeader input offset).map fun _ => [⟨offset, 4⟩]
  | chunk => (parseChunkHeader input offset).map fun _ => [⟨offset, 12⟩]
  | chunks => (parseChunksHeader input offset).map fun header => header.extents offset
  | chunkData => (parseChunkDataHeader input offset).map fun header => header.extents offset
  | chunkKeyValue => (parseChunkKeyValueHeader input offset).map fun _ => [⟨offset, 21⟩]
  | key => (parseKeyHeader input offset).map fun header => header.extents false
  | keyBackup => (parseKeyBackupHeader input offset).map fun header => header.extents offset
  | chunkKey => (parseChunkKeyHeader input offset).map fun header => header.extents offset
  | chunkKeyValueUpdate withValueUpdate =>
    (parseChunkKeyValueUpdateHeader input withValueUpdate offset).map fun header =>
      header.extents withValueUpdate offset
  | keyValue enableSplit isLarge =>
    (parseKeyValueHeader cfg input offset enableSplit isLarge).map fun header =>
      header.extents cfg enableSplit isLarge
  | keyValueUpdate withValueUpdate =>
    (parseKeyValueUpdateHeader input withValueUpdate offset).map fun header =>
      header.extents withValueUpdate false
  | chunkUpdate withDelta =>
    (parseChunkUpdateHeader input withDelta offset).map fun header =>
      header.extents withDelta offset

/-! ## What a message calls for -/

end Parser

/-! ## Extents and counts -/

section Extents

variable {cfg : GlobalConfig} {input : Input} {offset size : ℕ}

/-- A value that is not split is stored whole. -/
theorem payloadSize_of_plain {keySize valueSize splitOffset : ℕ}
    (h : LargeObjectUtil.isLarge cfg keySize valueSize = false) :
    KeyValue.payloadSize cfg keySize valueSize splitOffset = valueSize := by
  rw [KeyValue.payloadSize, h, if_neg Bool.false_ne_true]

end Extents

/-! ## The checks -/

namespace Parser

variable {cfg : GlobalConfig} {input : Input} {offset : ℕ} {parser : Parser}
  {extents : List Extent}

section Checks

variable (hsize : input.size < 2 ^ 64) (hoffset : offset ≤ input.size)

include hsize hoffset

end Checks

end Parser

end MemEC.Common
