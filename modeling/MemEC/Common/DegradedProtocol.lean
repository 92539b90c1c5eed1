import MemEC.Common.NormalProtocol

/-!
# The messages of degraded operations

The coordinator answers a request for a degraded lock with the redirected
chunks of the stripe, as two parallel arrays. It writes each array in two
passes, first the entries that matter for the key: those of its own chunk and
those of the parity chunks.
-/

namespace MemEC.Common

open MemEC.Lib

/-- One index of the two parallel arrays: the list and chunk ids of a chunk, and where it is
redirected to. -/
structure Redirection where
  original : ℕ × ℕ
  target : ℕ × ℕ
deriving DecidableEq

/-- The ids are `uint32_t`. -/
structure Redirection.Fits (e : Redirection) : Prop where
  original : e.original.1 < 2 ^ 32 ∧ e.original.2 < 2 ^ 32
  target : e.target.1 < 2 ^ 32 ∧ e.target.2 < 2 ^ 32

/-- The loop over the first array. -/
def originalBytes (redirections : List Redirection) : List UInt8 :=
  (redirections.map Redirection.original).flatMap idBytes

/-- The loop over the second array. -/
def targetBytes (redirections : List Redirection) : List UInt8 :=
  (redirections.map Redirection.target).flatMap idBytes

@[simp] theorem length_originalBytes (redirections : List Redirection) :
    (originalBytes redirections).length = 8 * redirections.length := by
  simp [originalBytes, List.length_flatMap, Function.comp_def, Nat.mul_comm]

@[simp] theorem length_targetBytes (redirections : List Redirection) :
    (targetBytes redirections).length = 8 * redirections.length := by
  simp [targetBytes, List.length_flatMap, Function.comp_def, Nat.mul_comm]

@[simp] theorem length_words (words : List ℕ) :
    (words.flatMap (beBytes 4)).length = 4 * words.length := by
  simp [List.length_flatMap, Nat.mul_comm]

theorem originalBytes_append (as bs : List Redirection) :
    originalBytes (as ++ bs) = originalBytes as ++ originalBytes bs := by
  simp [originalBytes]

theorem targetBytes_append (as bs : List Redirection) :
    targetBytes (as ++ bs) = targetBytes as ++ targetBytes bs := by
  simp [targetBytes]

/-! ## Replies to lock requests -/

/-- The condition of the four passes: the entry is related to the key. -/
def Redirection.isRelated (dataChunkId dataChunkCount : ℕ) (e : Redirection) : Bool :=
  (e.original.2 < dataChunkCount && e.original.2 = dataChunkId) || dataChunkCount ≤ e.original.2

namespace Protocol

/-- The common part of the functions `generateDegradedLockResHeader`. The `3` is
`PROTO_DEGRADED_LOCK_RES_BASE_SIZE`. -/
def generateDegradedLockResBase (p : Protocol) (e : Envelope) (length type : ℕ) (key : Key) :
    List UInt8 :=
  p.generateHeader e.magic e.receiver e.opcode (3 + Key.extent key.size key.isLarge + length)
    e.instanceId e.requestId 0 false ++
  (beBytes 1 type ++ beBytes 1 key.size ++ boolByte key.isLarge :: key.data)

end Protocol

/-- The fields of an IS_LOCKED or WAS_LOCKED reply. -/
structure LockFields where
  isSealed : Bool
  stripeId : ℕ
  dataChunkId : ℕ
  dataChunkCount : ℕ
  redirections : List Redirection
  ongoingAtChunk : ℕ
  survivingChunkIds : List ℕ

namespace LockFields

/-- What the four passes write. -/
def arrays (f : LockFields) : List UInt8 :=
  let isRelated := Redirection.isRelated f.dataChunkId f.dataChunkCount
  originalBytes (f.redirections.filter fun e => isRelated e) ++
  originalBytes (f.redirections.filter fun e => !isRelated e) ++
  targetBytes (f.redirections.filter fun e => isRelated e) ++
  targetBytes (f.redirections.filter fun e => !isRelated e)

/-- What follows the key. -/
def bytes (f : LockFields) : List UInt8 :=
  boolByte f.isSealed :: beBytes 4 f.stripeId ++ beBytes 4 f.redirections.length ++
    beBytes 4 f.ongoingAtChunk ++ beBytes 1 f.survivingChunkIds.length ++
    f.survivingChunkIds.flatMap (beBytes 4) ++ f.arrays

end LockFields

/-- The replies. -/
inductive DegradedLockRes
  | locked (isLocked : Bool) (fields : LockFields)
  | notLocked (exist : Bool)
  | remapped (redirections : List Redirection)

namespace Protocol

variable (p : Protocol) (e : Envelope) (key : Key)

/-- `generateDegradedLockResHeader` for IS_LOCKED and WAS_LOCKED. The `14` is
`PROTO_DEGRADED_LOCK_RES_LOCK_SIZE`. -/
def generateDegradedLockResLocked (isLocked : Bool) (f : LockFields) : List UInt8 :=
  p.generateDegradedLockResBase e
    (14 + f.survivingChunkIds.length * 4 + f.redirections.length * 4 * 4)
    (if isLocked then 1 else 2) key ++ f.bytes

/-- `generateDegradedLockResHeader` for NOT_LOCKED and NOT_EXIST. -/
def generateDegradedLockResNot (exist : Bool) : List UInt8 :=
  p.generateDegradedLockResBase e 0 (if exist then 3 else 5) key

/-- `generateDegradedLockResHeader` for REMAPPED. The first `4` is
`PROTO_DEGRADED_LOCK_RES_REMAP_SIZE`. -/
def generateDegradedLockResRemapped (redirections : List Redirection) : List UInt8 :=
  p.generateDegradedLockResBase e (4 + redirections.length * 4 * 4) 4 key ++
  (beBytes 4 redirections.length ++ originalBytes redirections ++ targetBytes redirections)

/-- The functions `generateDegradedLockResHeader`. -/
def generateDegradedLockResHeader : DegradedLockRes → List UInt8
  | .locked isLocked f => p.generateDegradedLockResLocked e key isLocked f
  | .notLocked exist => p.generateDegradedLockResNot e key exist
  | .remapped redirections => p.generateDegradedLockResRemapped e key redirections

end Protocol

/-- `DegradedLockResHeader`. -/
structure DegradedLockResHeader where
  type : ℕ
  keySize : ℕ
  isLarge : Bool
  key : ℕ
  isSealed : Bool
  stripeId : ℕ
  reconstructedCount : ℕ
  ongoingAtChunk : ℕ
  numSurvivingChunkIds : ℕ
  survivingChunkIds : ℕ
  remappedCount : ℕ
  original : ℕ
  reconstructed : ℕ
  remapped : ℕ
deriving DecidableEq

/-- `parseDegradedLockResHeader` for the common part. The parsers for the parts of a reply set
their fields of the header and leave the others as they are. -/
def parseDegradedLockResBase (input : Input) (offset : ℕ) (header : DegradedLockResHeader) :
    Option DegradedLockResHeader :=
  let m := input.bytes
  if input.rest offset < 3 then none
  else
    let header := { header with
      type := read1Byte m offset
      keySize := read1Byte m (offset + 1)
      isLarge := read1Byte m (offset + 2) != 0
      key := offset + 3 }
    if 3 + header.keySize ≤ input.rest offset then some header else none

/-- `parseDegradedLockResHeader` for IS_LOCKED and WAS_LOCKED. -/
def parseDegradedLockResLocked (input : Input) (offset : ℕ) (header : DegradedLockResHeader) :
    Option DegradedLockResHeader :=
  let m := input.bytes
  if input.rest offset < 14 then none
  else
    let reconstructedCount := read4Bytes m (offset + 5)
    let numSurvivingChunkIds := read1Byte m (offset + 13)
    let original := offset + 14 + numSurvivingChunkIds * 4
    some { header with
      isSealed := read1Byte m offset != 0
      stripeId := read4Bytes m (offset + 1)
      reconstructedCount
      ongoingAtChunk := read4Bytes m (offset + 9)
      numSurvivingChunkIds
      survivingChunkIds := offset + 14
      original
      reconstructed := original + 4 * u32 (reconstructedCount * 2) }

/-- `parseDegradedLockResHeader` for REMAPPED. -/
def parseDegradedLockResRemapped (input : Input) (offset : ℕ) (header : DegradedLockResHeader) :
    Option DegradedLockResHeader :=
  if input.rest offset < 4 then none
  else
    let remappedCount := read4Bytes input.bytes offset
    some { header with
      remappedCount
      original := offset + 4
      remapped := offset + 4 + 4 * u32 (remappedCount * 2) }

/-- `parseDegradedLockResHeader`. -/
def parseDegradedLockResHeader (input : Input) (offset : ℕ) (header : DegradedLockResHeader) :
    Option DegradedLockResHeader := do
  let header ← parseDegradedLockResBase input offset header
  let offset := u64 (offset + (3 + Key.extent header.keySize header.isLarge))
  if header.type = 1 ∨ header.type = 2 then parseDegradedLockResLocked input offset header
  else if header.type = 3 ∨ header.type = 5 then some header
  else if header.type = 4 then parseDegradedLockResRemapped input offset header
  else none

/-! ## Degraded requests -/

/-- The fields that the degraded requests share. -/
structure DegradedFields where
  isSealed : Bool
  stripeId : ℕ
  redirections : List Redirection
  ongoingAtChunk : ℕ
  survivingChunkIds : List ℕ

/-- What all of them write before the key. -/
def DegradedFields.bytes (f : DegradedFields) (isLarge : Bool) : List UInt8 :=
  boolByte isLarge :: boolByte f.isSealed :: beBytes 4 f.stripeId ++
    beBytes 4 f.redirections.length ++ beBytes 4 f.ongoingAtChunk ++
    beBytes 1 f.survivingChunkIds.length ++ f.survivingChunkIds.flatMap (beBytes 4) ++
    originalBytes f.redirections ++ targetBytes f.redirections

namespace Protocol

variable (p : Protocol) (e : Envelope)

/-- `generateDegradedReqHeader` for GET and DELETE. The `15` is `PROTO_DEGRADED_REQ_BASE_SIZE`, the
`1` is `PROTO_KEY_SIZE`. -/
def generateDegradedReqKey (f : DegradedFields) (key : Key) (timestamp : ℕ) : List UInt8 :=
  p.generateHeader e.magic e.receiver e.opcode
    (15 + f.survivingChunkIds.length * 4 + f.redirections.length * 4 * 4 + 1 +
      Key.extent key.size key.isLarge) e.instanceId e.requestId timestamp key.isLarge ++
  (f.bytes key.isLarge ++ (beBytes 1 key.size ++ key.data))

/-- `generateDegradedReqHeader` for UPDATE. The `7` is `PROTO_KEY_VALUE_UPDATE_SIZE`. Its header
does not say whether the key is large. -/
def generateDegradedReqUpdate (f : DegradedFields) (key : Key) (valueUpdateOffset : ℕ)
    (valueUpdate : List UInt8) (timestamp : ℕ) : List UInt8 :=
  p.generateHeader e.magic e.receiver e.opcode
    (15 + f.survivingChunkIds.length * 4 + f.redirections.length * 4 * 4 + 7 +
      Key.extent key.size key.isLarge + valueUpdate.length) e.instanceId e.requestId timestamp
    false ++
  (f.bytes key.isLarge ++ (beBytes 1 key.size ++ beBytes 3 valueUpdate.length ++
    beBytes 3 valueUpdateOffset ++ (key.data ++ valueUpdate)))

end Protocol

/-- `DegradedReqHeader`. -/
structure DegradedReqHeader where
  isLarge : Bool
  isSealed : Bool
  stripeId : ℕ
  reconstructedCount : ℕ
  original : ℕ
  reconstructed : ℕ
  ongoingAtChunk : ℕ
  numSurvivingChunkIds : ℕ
  survivingChunkIds : ℕ
  body : KeyHeader ⊕ KeyValueUpdateHeader
deriving DecidableEq

/-- `parseDegradedReqHeader` for the shared fields, with what the union `data` holds before. -/
def parseDegradedReqBase (input : Input) (offset : ℕ) (body : KeyHeader ⊕ KeyValueUpdateHeader) :
    Option DegradedReqHeader :=
  let m := input.bytes
  if input.rest offset < 15 then none
  else
    let reconstructedCount := read4Bytes m (offset + 6)
    let numSurvivingChunkIds := read1Byte m (offset + 14)
    let original := offset + 15 + numSurvivingChunkIds * 4
    some
      { isLarge := read1Byte m offset != 0
        isSealed := read1Byte m (offset + 1) != 0
        stripeId := read4Bytes m (offset + 2)
        reconstructedCount
        original
        reconstructed := original + 4 * u32 (reconstructedCount * 2)
        ongoingAtChunk := read4Bytes m (offset + 10)
        numSurvivingChunkIds
        survivingChunkIds := offset + 15
        body }

/-- The memory after the numbers of the arrays have been converted in place. -/
def DegradedReqHeader.converted (header : DegradedReqHeader) (m : Memory) : Memory :=
  convertIds (convertWords m header.survivingChunkIds header.numSurvivingChunkIds) header.original
    header.reconstructed header.reconstructedCount

/-- `parseDegradedReqHeader`. The opcodes are `PROTO_OPCODE_DEGRADED_GET`, `..._DELETE` and
`..._UPDATE`. -/
def parseDegradedReqHeader (input : Input) (opcode : UInt8) (offset : ℕ)
    (body : KeyHeader ⊕ KeyValueUpdateHeader) : Option DegradedReqHeader := do
  let header ← parseDegradedReqBase input offset body
  let input : Input := ⟨header.converted input.bytes, input.size⟩
  let offset := u64 (offset +
    u32 (15 + header.numSurvivingChunkIds * 4 + header.reconstructedCount * 4 * 4))
  if opcode = 0x07 ∨ opcode = 0x09 then
    let key ← parseKeyHeader input offset
    return { header with body := .inl key }
  else if opcode = 0x08 then
    let keyValueUpdate ← parseKeyValueUpdateHeader input true offset
    let valueUpdate := keyValueUpdate.valueUpdate + if header.isLarge then 3 else 0
    return { header with body := .inr { keyValueUpdate with valueUpdate } }
  else none

/-! ## Other messages -/

/-- `DegradedLockReqHeader`. -/
structure DegradedLockReqHeader where
  reconstructedCount : ℕ
  keySize : ℕ
  isLarge : Bool
  key : ℕ
  original : ℕ
  reconstructed : ℕ
deriving DecidableEq

/-- `parseDegradedLockReqHeader`. The `6` is `PROTO_DEGRADED_LOCK_REQ_SIZE`. There is always a split
offset behind the key, which is not counted; that of a plain key is cleared. -/
def parseDegradedLockReqHeader (input : Input) (offset : ℕ) : Option DegradedLockReqHeader :=
  let m := input.bytes
  if input.rest offset < 6 then none
  else
    let reconstructedCount := read4Bytes m offset
    let keySize := read1Byte m (offset + 4)
    if input.rest offset < 6 + keySize + u32 (reconstructedCount * 4 * 4) then none
    else
      let original := offset + 6 + keySize + 3
      some
        { reconstructedCount, keySize
          isLarge := read1Byte m (offset + 5) != 0
          key := offset + 6
          original
          reconstructed := original + 4 * u32 (reconstructedCount * 2) }

/-- What `ForwardKeyHeader` has for updates. A response has no `valueUpdate`. -/
structure ForwardKeyUpdate where
  valueUpdateSize : ℕ
  valueUpdateOffset : ℕ
  valueUpdate : Option ℕ
deriving DecidableEq

/-- `ForwardKeyHeader`. A response has no `value`. -/
structure ForwardKeyHeader where
  opcode : ℕ
  listId : ℕ
  stripeId : ℕ
  chunkId : ℕ
  keySize : ℕ
  valueSize : ℕ
  key : ℕ
  value : Option ℕ
  update : Option ForwardKeyUpdate
deriving DecidableEq

/-- `parseForwardKeyReqHeader`. The `17` and `6` are `PROTO_FORWARD_KEY_BASE_SIZE` and
`PROTO_FORWARD_KEY_UPDATE_SIZE`, the `8` is `PROTO_OPCODE_DEGRADED_UPDATE`. -/
def parseForwardKeyReqHeader (input : Input) (offset : ℕ) : Option ForwardKeyHeader :=
  let m := input.bytes
  if input.rest offset < 17 then none
  else
    let opcode := read1Byte m offset
    let keySize := read1Byte m (offset + 13)
    let valueSize := read3Bytes m (offset + 14)
    if input.rest offset < 17 + keySize + valueSize then none
    else
      let ptr := offset + 17 + keySize + valueSize
      let header : ForwardKeyHeader :=
        { opcode
          listId := read4Bytes m (offset + 1)
          stripeId := read4Bytes m (offset + 5)
          chunkId := read4Bytes m (offset + 9)
          keySize, valueSize
          key := offset + 17
          value := some (offset + 17 + keySize)
          update := none }
      if opcode = 8 then
        if input.rest offset < 17 + keySize + valueSize + 6 then none
        else
          let valueUpdateSize := read3Bytes m ptr
          if input.rest offset < 17 + keySize + valueSize + 6 + valueUpdateSize then none
          else some { header with
            update := some ⟨valueUpdateSize, read3Bytes m (ptr + 3), some (ptr + 6)⟩ }
      else some header

/-- `parseForwardKeyResHeader`. -/
def parseForwardKeyResHeader (input : Input) (offset : ℕ) : Option ForwardKeyHeader :=
  let m := input.bytes
  if input.rest offset < 17 then none
  else
    let opcode := read1Byte m offset
    let keySize := read1Byte m (offset + 13)
    if input.rest offset < 17 + keySize then none
    else
      let ptr := offset + 17 + keySize
      let header : ForwardKeyHeader :=
        { opcode
          listId := read4Bytes m (offset + 1)
          stripeId := read4Bytes m (offset + 5)
          chunkId := read4Bytes m (offset + 9)
          keySize
          valueSize := read3Bytes m (offset + 14)
          key := offset + 17
          value := none
          update := none }
      if opcode = 8 then
        if input.rest offset < 17 + keySize + 6 then none
        else some { header with
          update := some ⟨read3Bytes m ptr, read3Bytes m (ptr + 3), none⟩ }
      else some header

/-- `ListStripeKeyHeader`. -/
structure ListStripeKeyHeader where
  listId : ℕ
  chunkId : ℕ
  keySize : ℕ
  key : ℕ
deriving DecidableEq

/-- `parseListStripeKeyHeader`. The `9` is `PROTO_LIST_STRIPE_KEY_SIZE`. -/
def parseListStripeKeyHeader (input : Input) (isLarge : Bool) (offset : ℕ) :
    Option ListStripeKeyHeader :=
  let m := input.bytes
  if input.rest offset < 9 then none
  else
    let header : ListStripeKeyHeader :=
      ⟨read4Bytes m offset, read4Bytes m (offset + 4), read1Byte m (offset + 8), offset + 9⟩
    if 9 + Key.extent header.keySize isLarge ≤ input.rest offset then some header else none

/-- `DegradedReleaseResHeader`. -/
structure DegradedReleaseResHeader where
  count : ℕ
deriving DecidableEq

/-- `parseDegradedReleaseResHeader`. The `4` is `PROTO_DEGRADED_RELEASE_RES_SIZE`. -/
def parseDegradedReleaseResHeader (input : Input) (offset : ℕ) : Option DegradedReleaseResHeader :=
  if input.rest offset < 4 then none else some ⟨read4Bytes input.bytes offset⟩

/-! ## Reading the arrays -/

/-- The arrays behind `ptr` are those of the redirections. -/
theorem readIds_originalBytes {m : Memory} {ptr : ℕ} {l : List Redirection}
    (h : m.Holds ptr (originalBytes l)) (hl : ∀ e ∈ l, e.Fits) (hcount : l.length < 2 ^ 31) :
    readIds m ptr l.length = l.map Redirection.original := by
  have hread := readIds_eq h (fun id hid => by
    obtain ⟨e, he, rfl⟩ := List.mem_map.mp hid
    exact (hl e he).original) (by rwa [List.length_map])
  rwa [List.length_map] at hread

theorem readIds_targetBytes {m : Memory} {ptr : ℕ} {l : List Redirection}
    (h : m.Holds ptr (targetBytes l)) (hl : ∀ e ∈ l, e.Fits) (hcount : l.length < 2 ^ 31) :
    readIds m ptr l.length = l.map Redirection.target := by
  have hread := readIds_eq h (fun id hid => by
    obtain ⟨e, he, rfl⟩ := List.mem_map.mp hid
    exact (hl e he).target) (by rwa [List.length_map])
  rwa [List.length_map] at hread

/-! ## Reading the replies -/

namespace LockFields

/-- The fields have the size of their types. -/
structure Fits (f : LockFields) : Prop where
  stripeId : f.stripeId < 2 ^ 32
  ongoingAtChunk : f.ongoingAtChunk < 2 ^ 32
  survivingCount : f.survivingChunkIds.length < 2 ^ 8
  survivingChunkIds : ∀ id ∈ f.survivingChunkIds, id < 2 ^ 32
  redirections : ∀ e ∈ f.redirections, e.Fits

/-- The order in which the entries are written. -/
def reordered (f : LockFields) : List Redirection :=
  (f.redirections.filter fun e => e.isRelated f.dataChunkId f.dataChunkCount) ++
    f.redirections.filter fun e => !e.isRelated f.dataChunkId f.dataChunkCount

theorem reordered_perm (f : LockFields) : f.reordered.Perm f.redirections :=
  List.filter_append_perm _ _

/-- Both arrays are written in this order. -/
theorem arrays_eq (f : LockFields) :
    f.arrays = originalBytes f.reordered ++ targetBytes f.reordered := by
  simp only [arrays, reordered, originalBytes_append, targetBytes_append, List.append_assoc]

theorem length_arrays (f : LockFields) : f.arrays.length = 16 * f.redirections.length := by
  have hlength : f.reordered.length = f.redirections.length := f.reordered_perm.length_eq
  rw [arrays_eq, List.length_append, length_originalBytes, length_targetBytes]
  omega

theorem length_bytes (f : LockFields) : f.bytes.length =
    14 + 4 * f.survivingChunkIds.length + 16 * f.redirections.length := by
  simp only [bytes, List.length_append, List.length_cons, length_beBytes, length_words,
    length_arrays]

/-- The header and the arrays that it points to have the fields of the reply. Both arrays have the
entries under one permutation, with those of the key's chunk and of the parity chunks first. -/
structure ReadFrom (m : Memory) (header : DegradedLockResHeader) (f : LockFields) : Prop where
  isSealed : header.isSealed = f.isSealed
  stripeId : header.stripeId = f.stripeId
  reconstructedCount : header.reconstructedCount = f.redirections.length
  ongoingAtChunk : header.ongoingAtChunk = f.ongoingAtChunk
  numSurvivingChunkIds : header.numSurvivingChunkIds = f.survivingChunkIds.length
  survivingChunkIds :
    readWords m header.survivingChunkIds header.numSurvivingChunkIds = f.survivingChunkIds
  entries : ∃ related others : List Redirection, (related ++ others).Perm f.redirections ∧
    (∀ e ∈ related, e.original.2 = f.dataChunkId ∨ f.dataChunkCount ≤ e.original.2) ∧
    (∀ e ∈ others, e.original.2 ≠ f.dataChunkId ∧ e.original.2 < f.dataChunkCount) ∧
    readIds m header.original header.reconstructedCount =
      (related ++ others).map Redirection.original ∧
    readIds m header.reconstructed header.reconstructedCount =
      (related ++ others).map Redirection.target

theorem parse_eq {f : LockFields} {input : Input} {offset : ℕ}
    (h : input.bytes.Holds offset f.bytes) (hf : f.Fits) (hcount : f.redirections.length < 2 ^ 28)
    (hsize : input.size < 2 ^ 64) (hrest : offset + f.bytes.length ≤ input.size)
    (header : DegradedLockResHeader) :
    ∃ header', parseDegradedLockResLocked input offset header = some header' ∧
      f.ReadFrom input.bytes header' ∧ header'.type = header.type ∧
      header'.keySize = header.keySize ∧ header'.isLarge = header.isLarge ∧
      header'.key = header.key := by
  rw [length_bytes] at hrest
  simp only [bytes, arrays_eq, Memory.holds_append, Memory.holds_cons, List.length_append,
    List.length_cons, length_beBytes, length_words, length_originalBytes] at h
  obtain ⟨⟨⟨⟨⟨⟨h0, h1⟩, h5⟩, h9⟩, h13⟩, hsurviving⟩, horiginal, htarget⟩ := h
  have hlength : f.reordered.length = f.redirections.length := f.reordered_perm.length_eq
  have hfits : ∀ e ∈ f.reordered, e.Fits := fun e he =>
    hf.redirections e (f.reordered_perm.subset he)
  have hcount' : f.reordered.length < 2 ^ 31 := by omega
  have horiginalAt : input.bytes.Holds (offset + 14 + f.survivingChunkIds.length * 4)
      (originalBytes f.reordered) := by
    convert horiginal using 1
    omega
  have htargetAt : input.bytes.Holds (offset + 14 + f.survivingChunkIds.length * 4 +
      4 * u32 (f.redirections.length * 2)) (targetBytes f.reordered) := by
    rw [u32_eq (by omega)]
    convert htarget using 1
    omega
  unfold parseDegradedLockResLocked
  rw [Input.rest_eq hsize (by omega), if_neg (by omega), read4Bytes_eq h5 (by omega),
    read1Byte_eq h13 hf.survivingCount]
  refine ⟨_, rfl, ?_, rfl, rfl, rfl, rfl⟩
  constructor
  · exact read1Byte_bool h0
  · exact read4Bytes_eq h1 hf.stripeId
  · rfl
  · exact read4Bytes_eq h9 hf.ongoingAtChunk
  · rfl
  · exact readWords_eq hsurviving hf.survivingChunkIds
  · have horiginalRead := readIds_originalBytes horiginalAt hfits hcount'
    have htargetRead := readIds_targetBytes htargetAt hfits hcount'
    rw [hlength] at horiginalRead htargetRead
    refine ⟨_, _, f.reordered_perm, fun e he => ?_, fun e he => ?_, horiginalRead, htargetRead⟩
    · have hrelated := (List.mem_filter.mp he).2
      simp only [Redirection.isRelated, Bool.or_eq_true, Bool.and_eq_true,
        decide_eq_true_eq] at hrelated
      exact hrelated.imp And.right id
    · have hother := (List.mem_filter.mp he).2
      simp only [Redirection.isRelated, Bool.not_eq_true', Bool.or_eq_false_iff,
        Bool.and_eq_false_iff, decide_eq_false_iff_not] at hother
      omega

end LockFields

namespace DegradedLockRes

/-- The type of the reply. -/
def type : DegradedLockRes → ℕ
  | .locked isLocked _ => if isLocked then 1 else 2
  | .notLocked exist => if exist then 3 else 5
  | .remapped _ => 4

/-- What follows the key. -/
def bytes : DegradedLockRes → List UInt8
  | .locked _ f => f.bytes
  | .notLocked _ => []
  | .remapped redirections =>
    beBytes 4 redirections.length ++ originalBytes redirections ++ targetBytes redirections

/-- The fields have the size of their types. -/
def Fits : DegradedLockRes → Prop
  | .locked _ f => f.Fits
  | .notLocked _ => True
  | .remapped redirections => ∀ e ∈ redirections, e.Fits

/-- The header has the fields of the reply. -/
def ReadFrom (m : Memory) (header : DegradedLockResHeader) : DegradedLockRes → Prop
  | .locked _ f => f.ReadFrom m header
  | .notLocked _ => True
  | .remapped redirections => header.remappedCount = redirections.length ∧
    readIds m header.original header.remappedCount = redirections.map Redirection.original ∧
    readIds m header.remapped header.remappedCount = redirections.map Redirection.target

theorem generate_eq (p : Protocol) (e : Protocol.Envelope) (key : Key) (res : DegradedLockRes) :
    p.generateDegradedLockResHeader e key res =
      p.generateDegradedLockResBase e res.bytes.length res.type key ++ res.bytes := by
  cases res with
  | locked isLocked f =>
    have hlength : 14 + f.survivingChunkIds.length * 4 + f.redirections.length * 4 * 4 =
        f.bytes.length := by
      rw [f.length_bytes]
      omega
    simp only [Protocol.generateDegradedLockResHeader, Protocol.generateDegradedLockResLocked,
      hlength, type, bytes]
  | notLocked exist =>
    simp only [Protocol.generateDegradedLockResHeader, Protocol.generateDegradedLockResNot, type,
      bytes, List.length_nil, List.append_nil]
  | remapped redirections =>
    have hlength : 4 + redirections.length * 4 * 4 = (beBytes 4 redirections.length ++
        originalBytes redirections ++ targetBytes redirections).length := by
      simp only [List.length_append, length_beBytes, length_originalBytes, length_targetBytes]
      omega
    simp only [Protocol.generateDegradedLockResHeader, Protocol.generateDegradedLockResRemapped,
      hlength, type, bytes]

variable {input : Input} {offset : ℕ}

theorem parseRemapped_eq {redirections : List Redirection}
    (h : input.bytes.Holds offset (bytes (.remapped redirections)))
    (hfits : ∀ e ∈ redirections, e.Fits) (hcount : redirections.length < 2 ^ 28)
    (hsize : input.size < 2 ^ 64) (hrest : offset + 4 ≤ input.size)
    (header : DegradedLockResHeader) :
    ∃ header', parseDegradedLockResRemapped input offset header = some header' ∧
      ReadFrom input.bytes header' (.remapped redirections) ∧ header'.type = header.type ∧
      header'.keySize = header.keySize ∧ header'.isLarge = header.isLarge ∧
      header'.key = header.key := by
  simp only [bytes, Memory.holds_append, List.length_append, length_beBytes,
    length_originalBytes] at h
  obtain ⟨⟨h0, horiginal⟩, htarget⟩ := h
  have htargetAt : input.bytes.Holds (offset + 4 + 4 * u32 (redirections.length * 2))
      (targetBytes redirections) := by
    rw [u32_eq (by omega)]
    convert htarget using 1
    omega
  unfold parseDegradedLockResRemapped
  rw [Input.rest_eq hsize (by omega), if_neg (by omega), read4Bytes_eq h0 (by omega)]
  refine ⟨_, rfl, ⟨rfl, ?_, ?_⟩, rfl, rfl, rfl, rfl⟩
  · exact readIds_originalBytes horiginal hfits (by omega)
  · exact readIds_targetBytes htargetAt hfits (by omega)

theorem type_le (res : DegradedLockRes) : res.type ≤ 5 := by
  cases res with
  | locked isLocked _ => cases isLocked <;> simp [type]
  | notLocked exist => cases exist <;> simp [type]
  | remapped _ => simp [type]

theorem parseBase_eq {key : Key} {res : DegradedLockRes} {rest : List UInt8}
    (h : input.bytes.Holds offset
      (beBytes 1 res.type ++ beBytes 1 key.size ++ boolByte key.isLarge :: key.data ++ rest))
    (hkey : key.size < 2 ^ 8) (hsize : input.size < 2 ^ 64)
    (hrest : offset + 3 + key.size ≤ input.size) (header : DegradedLockResHeader) :
    parseDegradedLockResBase input offset header = some { header with
      type := res.type, keySize := key.size, isLarge := key.isLarge, key := offset + 3 } ∧
    Key.ofMemory input.bytes (offset + 3) key.size key.isLarge = key ∧
    input.bytes.Holds (offset + (3 + Key.extent key.size key.isLarge)) rest := by
  simp only [Memory.holds_append, Memory.holds_cons, List.length_append, List.length_cons,
    length_beBytes, key.length_data] at h
  obtain ⟨⟨⟨h0, h1⟩, h2, hkeyAt⟩, hrestAt⟩ := h
  have htype : res.type < 2 ^ 8 := lt_of_le_of_lt res.type_le (by decide)
  refine ⟨?_, Key.ofMemory_eq hkeyAt, ?_⟩
  · unfold parseDegradedLockResBase
    rw [Input.rest_eq hsize (by omega), if_neg (by omega), read1Byte_eq h0 htype,
      read1Byte_eq h1 hkey, read1Byte_bool h2]
    dsimp only
    rw [if_pos (by omega)]
  · convert hrestAt using 1
    omega

/-- The parser of the replies finds the fields that were written. -/
theorem parse_eq {key : Key} {res : DegradedLockRes}
    (h : input.bytes.Holds offset (beBytes 1 res.type ++ beBytes 1 key.size ++
      boolByte key.isLarge :: key.data ++ res.bytes))
    (hkey : key.size < 2 ^ 8) (hfits : res.Fits)
    (hrest : offset + 3 + Key.extent key.size key.isLarge + res.bytes.length ≤ input.size)
    (hsize : input.size < 2 ^ 32) (header : DegradedLockResHeader) :
    ∃ header', parseDegradedLockResHeader input offset header = some header' ∧
      header'.type = res.type ∧ header'.keySize = key.size ∧ header'.isLarge = key.isLarge ∧
      Key.ofMemory input.bytes header'.key header'.keySize header'.isLarge = key ∧
      res.ReadFrom input.bytes header' := by
  obtain ⟨hbase, hkeyAt, hbytes⟩ := parseBase_eq h hkey (by omega)
    (by rw [Key.extent] at hrest; omega) header
  have hoffset : u64 (offset + (3 + Key.extent key.size key.isLarge)) =
      offset + (3 + Key.extent key.size key.isLarge) := u64_eq (by omega)
  unfold parseDegradedLockResHeader
  rw [hbase, Option.bind_eq_bind, Option.bind_some]
  dsimp only
  rw [hoffset]
  cases res with
  | locked isLocked f =>
    have hlength := f.length_bytes
    rw [bytes] at hrest hbytes
    obtain ⟨header', hparse, hread, htype, hsize', hlarge, hkey'⟩ :=
      f.parse_eq hbytes hfits (by omega) (by omega) (by omega) _
    rw [if_pos (by cases isLocked <;> simp [type])]
    exact ⟨header', hparse, htype, hsize', hlarge, by rw [hkey', hsize', hlarge, hkeyAt], hread⟩
  | notLocked exist =>
    rw [if_neg (by cases exist <;> simp [type]), if_pos (by cases exist <;> simp [type])]
    exact ⟨_, rfl, rfl, rfl, rfl, hkeyAt, trivial⟩
  | remapped redirections =>
    have hlength : (bytes (.remapped redirections)).length = 4 + 16 * redirections.length := by
      simp only [bytes, List.length_append, length_beBytes, length_originalBytes,
        length_targetBytes]
      omega
    obtain ⟨header', hparse, hread, htype, hsize', hlarge, hkey'⟩ :=
      parseRemapped_eq hbytes hfits (by omega) (by omega) (by omega) _
    rw [if_neg (by simp [type]), if_neg (by simp [type]), if_pos (by simp [type])]
    exact ⟨header', hparse, htype, hsize', hlarge, by rw [hkey', hsize', hlarge, hkeyAt], hread⟩

end DegradedLockRes

/-! ## Reading the requests -/

namespace DegradedFields

/-- The fields have the size of their types. -/
structure Fits (f : DegradedFields) : Prop where
  stripeId : f.stripeId < 2 ^ 32
  ongoingAtChunk : f.ongoingAtChunk < 2 ^ 32
  survivingCount : f.survivingChunkIds.length < 2 ^ 8
  survivingChunkIds : ∀ id ∈ f.survivingChunkIds, id < 2 ^ 32
  redirections : ∀ e ∈ f.redirections, e.Fits

theorem length_bytes (f : DegradedFields) (isLarge : Bool) : (f.bytes isLarge).length =
    15 + 4 * f.survivingChunkIds.length + 16 * f.redirections.length := by
  simp only [bytes, List.length_append, List.length_cons, length_beBytes, length_words,
    length_originalBytes, length_targetBytes]
  omega

/-- The header and the arrays that it points to have the fields of the request. -/
structure ReadFrom (m : Memory) (header : DegradedReqHeader) (f : DegradedFields) : Prop where
  isSealed : header.isSealed = f.isSealed
  stripeId : header.stripeId = f.stripeId
  reconstructedCount : header.reconstructedCount = f.redirections.length
  ongoingAtChunk : header.ongoingAtChunk = f.ongoingAtChunk
  numSurvivingChunkIds : header.numSurvivingChunkIds = f.survivingChunkIds.length
  survivingChunkIds :
    readWords m header.survivingChunkIds header.numSurvivingChunkIds = f.survivingChunkIds
  original : readIds m header.original header.reconstructedCount =
    f.redirections.map Redirection.original
  reconstructed : readIds m header.reconstructed header.reconstructedCount =
    f.redirections.map Redirection.target

theorem parse_eq {f : DegradedFields} {input : Input} {offset : ℕ} {isLarge : Bool}
    (h : input.bytes.Holds offset (f.bytes isLarge)) (hf : f.Fits)
    (hcount : f.redirections.length < 2 ^ 28) (hsize : input.size < 2 ^ 64)
    (hrest : offset + (f.bytes isLarge).length ≤ input.size)
    (body : KeyHeader ⊕ KeyValueUpdateHeader) :
    ∃ header, parseDegradedReqBase input offset body = some header ∧
      header.isLarge = isLarge ∧ f.ReadFrom input.bytes header ∧
      ∀ bs, input.bytes.Holds (offset + (f.bytes isLarge).length) bs →
        (header.converted input.bytes).Holds (offset + (f.bytes isLarge).length) bs := by
  rw [length_bytes] at hrest ⊢
  simp only [bytes, Memory.holds_append, Memory.holds_cons, List.length_append,
    List.length_cons, length_beBytes, length_words, length_originalBytes] at h
  obtain ⟨⟨⟨⟨⟨⟨⟨h0, h1, h2⟩, h6⟩, h10⟩, h14⟩, hsurviving⟩, horiginal⟩, htarget⟩ := h
  have horiginalAt : input.bytes.Holds (offset + 15 + f.survivingChunkIds.length * 4)
      (originalBytes f.redirections) := by
    convert horiginal using 1
    omega
  have htargetAt : input.bytes.Holds (offset + 15 + f.survivingChunkIds.length * 4 +
      4 * u32 (f.redirections.length * 2)) (targetBytes f.redirections) := by
    rw [u32_eq (by omega)]
    convert htarget using 1
    omega
  unfold parseDegradedReqBase
  rw [Input.rest_eq hsize (by omega), if_neg (by omega), read4Bytes_eq h6 (by omega),
    read1Byte_eq h14 hf.survivingCount]
  refine ⟨_, rfl, read1Byte_bool h0, ?_, fun bs hbs => ?_⟩
  swap
  · refine holds_convertIds (holds_convertWords hbs ?_) (by dsimp only; omega) ?_ ?_
    · dsimp only
      omega
    · dsimp only
      omega
    · dsimp only
      rw [u32_eq (by omega)]
      omega
  constructor
  · exact read1Byte_bool h1
  · exact read4Bytes_eq h2 hf.stripeId
  · rfl
  · exact read4Bytes_eq h10 hf.ongoingAtChunk
  · rfl
  · exact readWords_eq hsurviving hf.survivingChunkIds
  · exact readIds_originalBytes horiginalAt hf.redirections (by omega)
  · exact readIds_targetBytes htargetAt hf.redirections (by omega)

/-- What the union holds is none of the shared fields. -/
theorem ReadFrom.withBody {m : Memory} {header : DegradedReqHeader} {f : DegradedFields}
    (h : f.ReadFrom m header) (body : KeyHeader ⊕ KeyValueUpdateHeader) :
    f.ReadFrom m { header with body := body } :=
  ⟨h.isSealed, h.stripeId, h.reconstructedCount, h.ongoingAtChunk, h.numSurvivingChunkIds,
    h.survivingChunkIds, h.original, h.reconstructed⟩

/-- Where the key of a request is looked for. -/
theorem ReadFrom.offset_eq {m : Memory} {header : DegradedReqHeader} {f : DegradedFields}
    (h : f.ReadFrom m header) (isLarge : Bool) (hlt : (f.bytes isLarge).length < 2 ^ 32) :
    u64 (0 + u32 (15 + header.numSurvivingChunkIds * 4 + header.reconstructedCount * 4 * 4)) =
      0 + (f.bytes isLarge).length := by
  have hlength := f.length_bytes isLarge
  rw [h.numSurvivingChunkIds, h.reconstructedCount, u32_eq (by omega), u64_eq (by omega)]
  omega

theorem parseKey_eq {f : DegradedFields} {input : Input} {key : Key} {opcode : UInt8}
    (h : input.bytes.Holds 0 (f.bytes key.isLarge ++ (beBytes 1 key.size ++ key.data)))
    (hf : f.Fits) (hkey : key.size < 2 ^ 8) (hopcode : opcode = 0x07 ∨ opcode = 0x09)
    (hrest : (f.bytes key.isLarge).length + 1 + key.data.length ≤ input.size)
    (hsize : input.size < 2 ^ 32) (body : KeyHeader ⊕ KeyValueUpdateHeader) :
    ∃ header k, parseDegradedReqHeader input opcode 0 body = some header ∧
      header.isLarge = key.isLarge ∧ f.ReadFrom input.bytes header ∧ header.body = .inl k ∧
      k.keySize = key.size ∧ Key.ofMemory input.bytes k.key k.keySize header.isLarge = key := by
  have hlength := f.length_bytes key.isLarge
  obtain ⟨hbytes, hkeyAt⟩ := Memory.holds_append.mp h
  rw [key.length_data, Key.extent] at hrest
  obtain ⟨header, hbase, hlarge, hread, hkeep⟩ :=
    parse_eq hbytes hf (by omega) (by omega) (by omega) body
  have hoffset := hread.offset_eq key.isLarge (by omega)
  let converted : Input := ⟨header.converted input.bytes, input.size⟩
  have hkept : converted.bytes.Holds (0 + (f.bytes key.isLarge).length)
      (beBytes 1 key.size ++ key.data) := hkeep _ hkeyAt
  have hsize' : converted.size = input.size := rfl
  have hparse := parseKeyHeader_eq hkept hkey (by omega) (by omega)
  unfold parseDegradedReqHeader
  rw [hbase, Option.bind_eq_bind, Option.bind_some]
  dsimp only
  rw [hoffset, if_pos hopcode, hparse]
  have hkeyRead : Key.ofMemory input.bytes (0 + (f.bytes key.isLarge).length + 1) key.size
      key.isLarge = key := by
    rw [Memory.holds_append, length_beBytes] at hkeyAt
    exact Key.ofMemory_eq hkeyAt.2
  refine ⟨_, _, rfl, hlarge, hread.withBody _, rfl, rfl, ?_⟩
  dsimp only
  rw [hlarge, hkeyRead]

theorem parseUpdate_eq {f : DegradedFields} {input : Input} {key : Key} {valueUpdateOffset : ℕ}
    {valueUpdate : List UInt8}
    (h : input.bytes.Holds 0 (f.bytes key.isLarge ++ (beBytes 1 key.size ++
      beBytes 3 valueUpdate.length ++ beBytes 3 valueUpdateOffset ++ (key.data ++ valueUpdate))))
    (hf : f.Fits) (hkey : key.size < 2 ^ 8) (hvalue : valueUpdate.length < 2 ^ 24)
    (hvalueOffset : valueUpdateOffset < 2 ^ 24)
    (hrest : (f.bytes key.isLarge).length + 7 + key.data.length + valueUpdate.length ≤ input.size)
    (hsize : input.size < 2 ^ 32) (body : KeyHeader ⊕ KeyValueUpdateHeader) :
    ∃ header u, parseDegradedReqHeader input 0x08 0 body = some header ∧
      header.isLarge = key.isLarge ∧ f.ReadFrom input.bytes header ∧ header.body = .inr u ∧
      u.keySize = key.size ∧ Key.ofMemory input.bytes u.key u.keySize header.isLarge = key ∧
      u.valueUpdateOffset = valueUpdateOffset ∧ u.valueUpdateSize = valueUpdate.length ∧
      input.bytes.read u.valueUpdate u.valueUpdateSize = valueUpdate := by
  have hlength := f.length_bytes key.isLarge
  obtain ⟨hbytes, hbodyAt⟩ := Memory.holds_append.mp h
  rw [key.length_data] at hrest
  have hextent : Key.extent key.size key.isLarge = key.size + if key.isLarge then 3 else 0 := rfl
  obtain ⟨header, hbase, hlarge, hread, hkeep⟩ :=
    parse_eq hbytes hf (by omega) (by omega) (by omega) body
  have hoffset := hread.offset_eq key.isLarge (by omega)
  let converted : Input := ⟨header.converted input.bytes, input.size⟩
  have hkept : converted.bytes.Holds (0 + (f.bytes key.isLarge).length)
      (beBytes 1 key.size ++ beBytes 3 valueUpdate.length ++ beBytes 3 valueUpdateOffset ++
        (key.data ++ valueUpdate)) := hkeep _ hbodyAt
  have hsize' : converted.size = input.size := rfl
  have hparse := parseKeyValueUpdateHeader_eq hkept hkey hvalue hvalueOffset (by omega) (by omega)
  simp only [Memory.holds_append, List.length_append, length_beBytes, key.length_data] at hbodyAt
  obtain ⟨-, hkeyAt, hvalueAt⟩ := hbodyAt
  unfold parseDegradedReqHeader
  rw [hbase, Option.bind_eq_bind, Option.bind_some]
  dsimp only
  rw [hoffset, if_neg (by decide), if_pos rfl, hparse]
  refine ⟨_, _, rfl, hlarge, hread.withBody _, rfl, rfl, ?_, rfl, rfl, ?_⟩
  · dsimp only
    rw [hlarge]
    exact Key.ofMemory_eq hkeyAt
  · dsimp only
    by_cases hnil : valueUpdate = []
    · subst hnil
      rfl
    · have hvalueOff : 0 + (f.bytes key.isLarge).length + (1 + 3 + 3) +
          Key.extent key.size key.isLarge = 0 + (f.bytes key.isLarge).length + 7 + key.size +
            if key.isLarge then 3 else 0 := by
        omega
      rw [if_pos (by simpa using hnil), hlarge, ← hvalueOff]
      exact hvalueAt

end DegradedFields

/-! ## Messages -/

section Messages

variable {p q : Protocol} {e : Protocol.Envelope} {key : Key}

/-- What follows the header of a reply. -/
def replyPayload (key : Key) (res : DegradedLockRes) : List UInt8 :=
  beBytes 1 res.type ++ beBytes 1 key.size ++ boolByte key.isLarge :: key.data ++ res.bytes

theorem length_replyPayload (key : Key) (res : DegradedLockRes) :
    (replyPayload key res).length = 3 + Key.extent key.size key.isLarge + res.bytes.length := by
  simp only [replyPayload, List.length_append, List.length_cons, length_beBytes, key.length_data]
  omega

theorem generateDegradedLockResHeader_eq (p : Protocol) (e : Protocol.Envelope) (key : Key)
    (res : DegradedLockRes) : p.generateDegradedLockResHeader e key res =
      p.generateHeader e.magic e.receiver e.opcode (replyPayload key res).length e.instanceId
        e.requestId 0 false ++ replyPayload key res := by
  rw [res.generate_eq, Protocol.generateDegradedLockResBase, ← length_replyPayload,
    List.append_assoc]
  rfl

/-- `q` finds the fields of the reply in the memory behind `m`, whatever its variable `header` held
before. -/
def ReplyReceived (p q : Protocol) (e : Protocol.Envelope) (key : Key) (res : DegradedLockRes)
    (m : Memory) (header : DegradedLockResHeader) : Prop :=
  let length := (p.generateDegradedLockResHeader e key res).length
  q.parseHeader (some m) length = some (e.header p q (length - 16) 0 false) ∧
  ∃ header', parseDegradedLockResHeader (q.input (some (advance m 16)) (length - 16)) 0 header =
      some header' ∧ header'.type = res.type ∧ header'.keySize = key.size ∧
    header'.isLarge = key.isLarge ∧
    Key.ofMemory (advance m 16) header'.key header'.keySize header'.isLarge = key ∧
    res.ReadFrom (advance m 16) header'

theorem replyReceived (he : e.Fits q) (hkey : key.size < 2 ^ 8) {res : DegradedLockRes}
    (hfits : res.Fits) {m : Memory} (hm : m.Holds 0 (p.generateDegradedLockResHeader e key res))
    (hlt : (p.generateDegradedLockResHeader e key res).length < 2 ^ 32)
    (header : DegradedLockResHeader) : ReplyReceived p q e key res m header := by
  unfold ReplyReceived
  rw [generateDegradedLockResHeader_eq] at hm hlt ⊢
  rw [List.length_append, Protocol.length_generateHeader] at hlt ⊢
  have hlength := length_replyPayload key res
  obtain ⟨hheader, hpayload⟩ := Protocol.receive_eq hm he (by omega) (by decide)
  dsimp only
  rw [Nat.add_sub_cancel_left, q.input_some _ (by omega)]
  exact ⟨hheader, DegradedLockRes.parse_eq hpayload hkey hfits (by dsimp only; omega)
    (by dsimp only; omega) header⟩

/-- What follows the header of a GET or DELETE. -/
def keyPayload (f : DegradedFields) (key : Key) : List UInt8 :=
  f.bytes key.isLarge ++ (beBytes 1 key.size ++ key.data)

theorem length_keyPayload (f : DegradedFields) (key : Key) : (keyPayload f key).length =
    15 + f.survivingChunkIds.length * 4 + f.redirections.length * 4 * 4 + 1 +
      Key.extent key.size key.isLarge := by
  simp only [keyPayload, List.length_append, f.length_bytes, length_beBytes, key.length_data]
  omega

/-- `q` finds the fields of a GET or DELETE in the memory behind `m`. -/
def KeyRequestReceived (p q : Protocol) (e : Protocol.Envelope) (f : DegradedFields) (key : Key)
    (timestamp : ℕ) (m : Memory) (body : KeyHeader ⊕ KeyValueUpdateHeader) : Prop :=
  let length := (p.generateDegradedReqKey e f key timestamp).length
  q.parseHeader (some m) length = some (e.header p q (length - 16) timestamp key.isLarge) ∧
  ∃ header k, parseDegradedReqHeader (q.input (some (advance m 16)) (length - 16)) e.opcode 0
      body = some header ∧ header.isLarge = key.isLarge ∧ f.ReadFrom (advance m 16) header ∧
    header.body = .inl k ∧ k.keySize = key.size ∧
    Key.ofMemory (advance m 16) k.key k.keySize header.isLarge = key

theorem keyRequestReceived (he : e.Fits q) (hkey : key.size < 2 ^ 8) {f : DegradedFields}
    (hf : f.Fits) {timestamp : ℕ} (htimestamp : timestamp < 2 ^ 32)
    (hopcode : e.opcode = 0x07 ∨ e.opcode = 0x09) {m : Memory}
    (hm : m.Holds 0 (p.generateDegradedReqKey e f key timestamp))
    (hlt : (p.generateDegradedReqKey e f key timestamp).length < 2 ^ 32)
    (body : KeyHeader ⊕ KeyValueUpdateHeader) :
    KeyRequestReceived p q e f key timestamp m body := by
  unfold KeyRequestReceived
  have hlength := length_keyPayload f key
  have hsplit : p.generateDegradedReqKey e f key timestamp =
      p.generateHeader e.magic e.receiver e.opcode (keyPayload f key).length e.instanceId
        e.requestId timestamp key.isLarge ++ keyPayload f key := by
    rw [hlength]
    rfl
  have hbytes : (keyPayload f key).length =
      (f.bytes key.isLarge).length + 1 + key.data.length := by
    simp only [keyPayload, List.length_append, length_beBytes, Nat.add_assoc]
  rw [hsplit] at hm hlt ⊢
  rw [List.length_append, Protocol.length_generateHeader] at hlt ⊢
  obtain ⟨hheader, hpayload⟩ := Protocol.receive_eq hm he (by omega) htimestamp
  dsimp only
  rw [Nat.add_sub_cancel_left, q.input_some _ (by omega)]
  let input : Input := ⟨advance m 16, (keyPayload f key).length⟩
  have hin : input.bytes.Holds 0 (f.bytes key.isLarge ++ (beBytes 1 key.size ++ key.data)) :=
    hpayload
  have hrest : (f.bytes key.isLarge).length + 1 + key.data.length ≤ input.size := hbytes.ge
  have hsize : input.size < 2 ^ 32 := by
    dsimp only [input]
    omega
  exact ⟨hheader, DegradedFields.parseKey_eq hin hf hkey hopcode hrest hsize body⟩

/-- What follows the header of an UPDATE. -/
def updatePayload (f : DegradedFields) (key : Key) (valueUpdateOffset : ℕ)
    (valueUpdate : List UInt8) : List UInt8 :=
  f.bytes key.isLarge ++ (beBytes 1 key.size ++ beBytes 3 valueUpdate.length ++
    beBytes 3 valueUpdateOffset ++ (key.data ++ valueUpdate))

theorem length_updatePayload (f : DegradedFields) (key : Key) (valueUpdateOffset : ℕ)
    (valueUpdate : List UInt8) : (updatePayload f key valueUpdateOffset valueUpdate).length =
    15 + f.survivingChunkIds.length * 4 + f.redirections.length * 4 * 4 + 7 +
      Key.extent key.size key.isLarge + valueUpdate.length := by
  simp only [updatePayload, List.length_append, f.length_bytes, length_beBytes, key.length_data]
  omega

/-- `q` finds the fields of an UPDATE in the memory behind `m`. -/
def UpdateRequestReceived (p q : Protocol) (e : Protocol.Envelope) (f : DegradedFields) (key : Key)
    (valueUpdateOffset : ℕ) (valueUpdate : List UInt8) (timestamp : ℕ) (m : Memory)
    (body : KeyHeader ⊕ KeyValueUpdateHeader) : Prop :=
  let length :=
    (p.generateDegradedReqUpdate e f key valueUpdateOffset valueUpdate timestamp).length
  q.parseHeader (some m) length = some (e.header p q (length - 16) timestamp false) ∧
  ∃ header u, parseDegradedReqHeader (q.input (some (advance m 16)) (length - 16)) e.opcode 0
      body = some header ∧ header.isLarge = key.isLarge ∧ f.ReadFrom (advance m 16) header ∧
    header.body = .inr u ∧ u.keySize = key.size ∧
    Key.ofMemory (advance m 16) u.key u.keySize header.isLarge = key ∧
    u.valueUpdateOffset = valueUpdateOffset ∧ u.valueUpdateSize = valueUpdate.length ∧
    (advance m 16).read u.valueUpdate u.valueUpdateSize = valueUpdate

theorem updateRequestReceived (he : e.Fits q) (hkey : key.size < 2 ^ 8) {f : DegradedFields}
    (hf : f.Fits) {timestamp : ℕ} (htimestamp : timestamp < 2 ^ 32) (hopcode : e.opcode = 0x08)
    {valueUpdateOffset : ℕ} {valueUpdate : List UInt8} (hvalue : valueUpdate.length < 2 ^ 24)
    (hvalueOffset : valueUpdateOffset < 2 ^ 24) {m : Memory}
    (hm : m.Holds 0 (p.generateDegradedReqUpdate e f key valueUpdateOffset valueUpdate timestamp))
    (hlt : (p.generateDegradedReqUpdate e f key valueUpdateOffset valueUpdate timestamp).length <
      2 ^ 32)
    (body : KeyHeader ⊕ KeyValueUpdateHeader) :
    UpdateRequestReceived p q e f key valueUpdateOffset valueUpdate timestamp m body := by
  unfold UpdateRequestReceived
  have hlength := length_updatePayload f key valueUpdateOffset valueUpdate
  have hsplit : p.generateDegradedReqUpdate e f key valueUpdateOffset valueUpdate timestamp =
      p.generateHeader e.magic e.receiver e.opcode
        (updatePayload f key valueUpdateOffset valueUpdate).length e.instanceId e.requestId
        timestamp false ++ updatePayload f key valueUpdateOffset valueUpdate := by
    rw [hlength]
    rfl
  have hbytes : (updatePayload f key valueUpdateOffset valueUpdate).length =
      (f.bytes key.isLarge).length + 7 + key.data.length + valueUpdate.length := by
    simp only [updatePayload, List.length_append, length_beBytes, Nat.add_assoc]
    omega
  rw [hsplit] at hm hlt ⊢
  rw [List.length_append, Protocol.length_generateHeader] at hlt ⊢
  obtain ⟨hheader, hpayload⟩ := Protocol.receive_eq hm he (by omega) htimestamp
  dsimp only
  rw [Nat.add_sub_cancel_left, q.input_some _ (by omega), hopcode]
  let input : Input := ⟨advance m 16, (updatePayload f key valueUpdateOffset valueUpdate).length⟩
  have hin : input.bytes.Holds 0 (f.bytes key.isLarge ++ (beBytes 1 key.size ++
      beBytes 3 valueUpdate.length ++ beBytes 3 valueUpdateOffset ++ (key.data ++ valueUpdate))) :=
    hpayload
  have hrest : (f.bytes key.isLarge).length + 7 + key.data.length + valueUpdate.length ≤
      input.size := hbytes.ge
  have hsize : input.size < 2 ^ 32 := by
    dsimp only [input]
    omega
  exact ⟨hheader, DegradedFields.parseUpdate_eq hin hf hkey hvalue hvalueOffset hrest hsize body⟩

/-- Every reply to a lock request and every degraded request whose length the header can say is
parsed into the fields that it was generated from. -/
theorem degraded_roundTrip (p : Protocol) (he : e.Fits q) (hkey : key.size < 2 ^ 8) (m : Memory) :
    (∀ res header, res.Fits → m.Holds 0 (p.generateDegradedLockResHeader e key res) →
      (p.generateDegradedLockResHeader e key res).length < 2 ^ 32 →
        ReplyReceived p q e key res m header) ∧
    (∀ f timestamp body, f.Fits → timestamp < 2 ^ 32 → e.opcode = 0x07 ∨ e.opcode = 0x09 →
      m.Holds 0 (p.generateDegradedReqKey e f key timestamp) →
      (p.generateDegradedReqKey e f key timestamp).length < 2 ^ 32 →
        KeyRequestReceived p q e f key timestamp m body) ∧
    ∀ f timestamp valueUpdateOffset valueUpdate body, f.Fits → timestamp < 2 ^ 32 →
      e.opcode = 0x08 → valueUpdate.length < 2 ^ 24 → valueUpdateOffset < 2 ^ 24 →
      m.Holds 0 (p.generateDegradedReqUpdate e f key valueUpdateOffset valueUpdate timestamp) →
      (p.generateDegradedReqUpdate e f key valueUpdateOffset valueUpdate timestamp).length <
        2 ^ 32 →
        UpdateRequestReceived p q e f key valueUpdateOffset valueUpdate timestamp m body := by
  refine ⟨?_, ?_, ?_⟩
  · intro res header hfits hm hlt
    exact replyReceived he hkey hfits hm hlt header
  · intro f timestamp body hf htimestamp hopcode hm hlt
    exact keyRequestReceived he hkey hf htimestamp hopcode hm hlt body
  · intro f timestamp valueUpdateOffset valueUpdate body hf htimestamp hopcode hvalue hoffset hm hlt
    exact updateRequestReceived he hkey hf htimestamp hopcode hvalue hoffset hm hlt body

/-- Three redirections, of which the first is that of another data chunk. -/
def sampleRedirections : List Redirection :=
  [⟨(0, 1), (0, 3)⟩, ⟨(0, 2), (0, 4)⟩, ⟨(0, 5), (0, 0)⟩]

def sampleReply : DegradedLockRes := .locked true ⟨true, 7, 2, 4, sampleRedirections, 5, [0, 3, 4]⟩

def sampleFields : DegradedFields := ⟨true, 7, sampleRedirections, 5, [0, 3, 4]⟩

def sampleKey : Key := Key.split [97, 98] 4096

/-- A party of the sample: the coordinator, the client or the server. -/
def sampleParty (sender receiver : UInt8) : Protocol := ⟨sender, receiver, 65536, 0, by decide⟩

theorem sampleRedirections_fits : ∀ e ∈ sampleRedirections, e.Fits := by
  intro e he
  simp only [sampleRedirections, List.mem_cons, List.not_mem_nil, or_false] at he
  rcases he with rfl | rfl | rfl <;> exact ⟨by decide, by decide⟩

theorem sampleFields_fits : sampleFields.Fits :=
  ⟨by decide, by decide, by decide, by decide, sampleRedirections_fits⟩

theorem degraded_roundTrip_sample :
    (∀ header, ReplyReceived (sampleParty 0x08 0x20) (sampleParty 0x10 0x40)
      ⟨0x02, 0x40, 0x11, 1, 9⟩ sampleKey sampleReply ((0 : Memory).write 0
        ((sampleParty 0x08 0x20).generateDegradedLockResHeader ⟨0x02, 0x40, 0x11, 1, 9⟩ sampleKey
          sampleReply)) header) ∧
    (∀ body, KeyRequestReceived (sampleParty 0x10 0x40) (sampleParty 0x18 0x60)
      ⟨0x01, 0x60, 0x07, 1, 9⟩ sampleFields sampleKey 0 ((0 : Memory).write 0
        ((sampleParty 0x10 0x40).generateDegradedReqKey ⟨0x01, 0x60, 0x07, 1, 9⟩ sampleFields
          sampleKey 0)) body) ∧
    ∀ body, UpdateRequestReceived (sampleParty 0x10 0x40) (sampleParty 0x18 0x60)
      ⟨0x01, 0x60, 0x08, 1, 9⟩ sampleFields sampleKey 3 [1, 2] 5 ((0 : Memory).write 0
        ((sampleParty 0x10 0x40).generateDegradedReqUpdate ⟨0x01, 0x60, 0x08, 1, 9⟩ sampleFields
          sampleKey 3 [1, 2] 5)) body := by
  refine ⟨fun header => ?_, fun body => ?_, fun body => ?_⟩
  · exact (degraded_roundTrip _ ⟨by decide, by decide, by decide, by decide⟩ (by decide) _).1
      sampleReply header
      ⟨by decide, by decide, by decide, by decide, sampleRedirections_fits⟩
      (Memory.holds_write _ _ _) (by decide +kernel)
  · exact (degraded_roundTrip _ ⟨by decide, by decide, by decide, by decide⟩ (by decide) _).2.1
      sampleFields 0 body sampleFields_fits (by decide) (.inl rfl) (Memory.holds_write _ _ _)
      (by decide +kernel)
  · exact (degraded_roundTrip _ ⟨by decide, by decide, by decide, by decide⟩ (by decide) _).2.2
      sampleFields 5 3 [1, 2] body sampleFields_fits (by decide) rfl (by decide) (by decide)
      (Memory.holds_write _ _ _) (by decide +kernel)

end Messages

end MemEC.Common
