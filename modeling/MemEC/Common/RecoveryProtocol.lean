import MemEC.Common.NormalProtocol

/-!
# Acknowledgements, recovery and remapping

The parsers for the messages that carry counted arrays of numbers, of ids and of
keys. The sums that they compare with the size of the message are numbers of 32
bits, and not every count is compared with it.
-/

namespace MemEC.Common

open MemEC.Lib

/-! ## Acknowledgements -/

/-- `AcknowledgementHeader`. -/
structure AcknowledgementHeader where
  fromTimestamp : ℕ
  toTimestamp : ℕ
deriving DecidableEq

/-- `parseAcknowledgementHeader`. The `8` is `PROTO_ACK_BASE_SIZE`. -/
def parseAcknowledgementHeader (input : Input) (offset : ℕ) : Option AcknowledgementHeader :=
  let m := input.bytes
  if input.rest offset < 8 then none
  else some ⟨read4Bytes m offset, read4Bytes m (offset + 4)⟩

/-- `DeltaAcknowledgementHeader`. -/
structure DeltaAcknowledgementHeader where
  tsCount : ℕ
  keyCount : ℕ
  targetId : ℕ
deriving DecidableEq

/-- The loop over the keys of `parseDeltaAcknowledgementHeader`, which has `bytes` bytes of keys
behind it. The `10` is `PROTO_ACK_DELTA_SIZE`. -/
def parseDeltaKeys (input : Input) (offset tsCount : ℕ) : ℕ → ℕ → ℕ → Option (List Key)
  | 0, _, _ => some []
  | count + 1, ptr, bytes =>
    let keySize := read1Byte input.bytes ptr
    let bytes := u32 (bytes + (1 + keySize))
    if input.rest offset < u32 (10 + tsCount * 4 + bytes) then none
    else
      (parseDeltaKeys input offset tsCount count (ptr + 1 + keySize) bytes).map
        (Key.ofMemory input.bytes (ptr + 1) keySize false :: ·)

/-- `parseDeltaAcknowledgementHeader`. `timestamps` and `requests` say which lists the caller asks
for; the lists are what is appended to them. -/
def parseDeltaAcknowledgementHeader (input : Input) (timestamps requests : Bool) (offset : ℕ) :
    Option (DeltaAcknowledgementHeader × List ℕ × List Key) :=
  let m := input.bytes
  if input.rest offset < 10 then none
  else
    let header : DeltaAcknowledgementHeader :=
      ⟨read4Bytes m offset, read4Bytes m (offset + 4), read2Bytes m (offset + 8)⟩
    -- the keys are taken to be empty here
    if input.rest offset < u32 (10 + header.tsCount * 4 + header.keyCount) then none
    else if !timestamps then some (header, [], [])
    else
      let ts := readWords m (offset + 10) header.tsCount
      if !requests then some (header, ts, [])
      else
        (parseDeltaKeys input offset header.tsCount header.keyCount
          (offset + 10 + 4 * header.tsCount) 0).map fun keys => (header, ts, keys)

/-! ## Recovery -/

/-- `PromoteBackupServerHeader`. The address and the port stay in network byte order. A response
leaves the pointers as they are. -/
structure PromoteBackupServerHeader where
  addr : List UInt8
  port : List UInt8
  chunkCount : ℕ
  unsealedCount : ℕ
  arrays : Option (ℕ × ℕ)
deriving DecidableEq

/-- `parsePromoteBackupServerHeader`. The `14` is `PROTO_PROMOTE_BACKUP_SERVER_SIZE`. The pointers
are those to `metadata` and to `keys`. -/
def parsePromoteBackupServerHeader (input : Input) (isRequest : Bool) (offset : ℕ) :
    Option PromoteBackupServerHeader :=
  let m := input.bytes
  if input.rest offset < 14 then none
  else
    let chunkCount := read4Bytes m (offset + 6)
    some
      { addr := m.read offset 4
        port := m.read (offset + 4) 2
        chunkCount
        unsealedCount := read4Bytes m (offset + 10)
        arrays := if isRequest then some (offset + 14, offset + 14 + 12 * chunkCount) else none }

/-- `ReconstructionHeader`. -/
structure ReconstructionHeader where
  listId : ℕ
  chunkId : ℕ
  numStripes : ℕ
  stripeIds : ℕ
deriving DecidableEq

/-- `parseReconstructionHeader`. The `12` is `PROTO_RECONSTRUCTION_SIZE`; only the product of its
sum is a number of 32 bits. -/
def parseReconstructionHeader (input : Input) (isRequest : Bool) (offset : ℕ) :
    Option ReconstructionHeader :=
  let m := input.bytes
  if input.rest offset < 12 then none
  else
    let numStripes := read4Bytes m (offset + 8)
    if isRequest then
      if input.rest offset < 12 + u32 (numStripes * 4) then none
      else some ⟨read4Bytes m offset, read4Bytes m (offset + 4), numStripes, offset + 12⟩
    else some ⟨read4Bytes m offset, read4Bytes m (offset + 4), numStripes, 0⟩

/-! ## Remapping -/

/-- `RemappingLockHeader`. -/
structure RemappingLockHeader where
  remappedCount : ℕ
  keySize : ℕ
  isLarge : Bool
  key : ℕ
  original : ℕ
  remapped : ℕ
deriving DecidableEq

/-- `parseRemappingLockHeader`. The `6` is `PROTO_REMAPPING_LOCK_SIZE`; the split offset of the key
is not counted. -/
def parseRemappingLockHeader (input : Input) (offset : ℕ) : Option RemappingLockHeader :=
  let m := input.bytes
  if input.rest offset < 6 then none
  else
    let remappedCount := read4Bytes m offset
    let keySize := read1Byte m (offset + 4)
    let isLarge := read1Byte m (offset + 5) != 0
    if input.rest offset < 6 + keySize + u32 (remappedCount * 4 * 4) then none
    else
      let original := offset + 6 + Key.extent keySize isLarge
      some
        { remappedCount, keySize, isLarge
          key := offset + 6
          original
          remapped := original + 4 * u32 (remappedCount * 2) }

/-- `DegradedSetHeader`. Without remapped chunks the pointers to their ids are null. -/
structure DegradedSetHeader where
  listId : ℕ
  chunkId : ℕ
  remappedCount : ℕ
  keySize : ℕ
  valueSize : ℕ
  isLarge : Bool
  key : ℕ
  splitOffset : ℕ
  value : ℕ
  original : ℕ
  remapped : ℕ
deriving DecidableEq

/-- `parseDegradedSetHeader`. The `17` is `PROTO_DEGRADED_SET_SIZE`. -/
def parseDegradedSetHeader (cfg : GlobalConfig) (input : Input) (offset : ℕ) :
    Option DegradedSetHeader :=
  let m := input.bytes
  if input.rest offset < 17 then none
  else
    let remappedCount := read4Bytes m (offset + 8)
    let keySize := read1Byte m (offset + 12)
    let valueSize := read3Bytes m (offset + 13)
    let key := offset + 17
    -- what the two branches have in common: the split offset, the value, and its size
    let finish (splitOffset value splitSize : ℕ) : DegradedSetHeader :=
      { listId := read4Bytes m offset
        chunkId := read4Bytes m (offset + 4)
        remappedCount, keySize, valueSize
        isLarge := read1Byte m (offset + 16) != 0
        key, splitOffset, value
        original := if remappedCount ≠ 0 then value + splitSize else 0
        remapped :=
          if remappedCount ≠ 0 then value + splitSize + 4 * u32 (remappedCount * 2) else 0 }
    if LargeObjectUtil.isLarge cfg keySize valueSize then
      let splitOffset := read3Bytes m (key + keySize)
      let splitSize := KeyValue.payloadSize cfg keySize valueSize splitOffset
      if input.rest offset < u32 (17 + 3 + keySize + splitSize + remappedCount * 4 * 4) then none
      else some (finish splitOffset (key + keySize + 3) splitSize)
    else if input.rest offset < u32 (17 + keySize + valueSize + remappedCount * 4 * 4) then none
    else some (finish 0 (key + keySize) valueSize)

end MemEC.Common
