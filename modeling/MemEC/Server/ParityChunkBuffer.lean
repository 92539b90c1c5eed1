import MemEC.Common.ChunkPool
import MemEC.Common.Coding
import MemEC.Server.SealChunk

/-!
# The parity chunk buffer

A parity server receives the objects of a stripe from the clients and learns
from the SEAL_CHUNK requests of the data servers where each object stands in
its data chunk. Whichever comes first waits for the other: objects wait in
`keys` and the positions of objects in `pending`. When both are there, the
object is folded into the parity chunk of the stripe, which is found in
`chunks`. Updates are XOR-ed into the stored object or, by its position, into
the parity chunk.

`ParityChunkBuffer` here is the buffer of one list on the server, along with
`ServerWorker::getChunkBuffer`. The field `folded` is not in the source: it
records the keys that are folded into a parity chunk, in that order. The
chunk pool is taken to be large enough, and the registration of the parity
chunk in the server's map is left out. The scratch chunks of a worker are
cleared before they are used, so they start from zero here.
-/

namespace MemEC.Server

open MemEC.Lib MemEC.Common KeyValue

/-- `PendingRequest`. -/
inductive PendingRequest
  | prtSeal (stripeId offset : ℕ)
  | prtUpdate (offset length : ℕ) (buf : List UInt8)
  | prtDelete
deriving DecidableEq

/-- `ParityChunkWrapper`: which data chunks have not been sealed yet, and the parity chunk. -/
structure ParityChunkWrapper where
  pending : List Bool
  chunk : Memory

/-- `GetChunkWrapper`. -/
structure GetChunkWrapper where
  acked : Bool
  chunk : Option Memory
  sealIndicator : List Bool

/-- `GetChunkBuffer`. -/
abbrev GetChunkBuffer := AList fun _ : Metadata => GetChunkWrapper

namespace GetChunkBuffer

/-- `GetChunkBuffer::insert`. -/
def insertBackup (g : GetChunkBuffer) (metadata : Metadata) (chunk : Option Memory)
    (sealIndicator : List Bool) : GetChunkBuffer :=
  match chunk with
  | none => g
  | some chunk =>
    match g.lookup metadata with
    | none => g.insert metadata ⟨false, some chunk, sealIndicator⟩
    | some wrapper =>
      if wrapper.acked || wrapper.chunk.isSome then g
      else g.insert metadata { wrapper with chunk := some chunk, sealIndicator }

/-- The backup of a sealed chunk is XOR-ed with itself in `ParityChunkBuffer::update`. -/
def updateBackup (g : GetChunkBuffer) (capacity : ℕ) (metadata : Metadata) (chunkId : ℕ) :
    GetChunkBuffer :=
  match g.lookup metadata with
  | some { acked, chunk := some backupChunk, sealIndicator } =>
    if sealIndicator.getD chunkId false then
      g.insert metadata ⟨acked, some (backupChunk.xorInto 0 backupChunk 0 capacity), sealIndicator⟩
    else g
  | _ => g

end GetChunkBuffer

variable (cfg : GlobalConfig)

/-- `ParityChunkBuffer`. The chunks of a stripe behind the data chunks are parity chunks. -/
structure ParityChunkBuffer where
  coding : Coding cfg
  listId : ℕ
  chunkId : ℕ
  chunks : AList fun _ : ℕ => ParityChunkWrapper
  keys : KeyMap Memory
  pending : KeyMap PendingRequest
  getChunkBuffer : GetChunkBuffer
  folded : List Key
  isParity : coding.dataChunkCount ≤ chunkId

/-- `Protocol::parseKeyValueHeader` of a SET request. -/
def parseKeyValueHeader (buf : Memory) (size : ℕ) : Option Deserialized :=
  if size < 4 then none
  else
    let header := deserialize cfg buf 0
    if LargeObjectUtil.isLarge cfg header.keySize header.valueSize then
      if size < 4 + 3 + header.keySize +
          payloadSize cfg header.keySize header.valueSize header.splitOffset then none
      else some header
    else if size < 4 + header.keySize + header.valueSize then none
    else some header

/-- What a server sends along with an update of an object. -/
structure ChunkKeyValueUpdateHeader where
  stripeId : ℕ
  chunkId : ℕ
  key : Key
  valueUpdateOffset : ℕ
  chunkUpdateOffset : ℕ
  valueUpdate : List UInt8

/-- The messages of one list that a parity server receives. A SET request carries no chunk id: it
is the one that the key belongs to. -/
inductive Message
  | set (body : List UInt8) (chunkId : ℕ)
  | update (header : ChunkKeyValueUpdateHeader)
  | delete (key : List UInt8)
  | sealChunk (request : SealRequest)

namespace ParityChunkBuffer

variable {cfg} (b : ParityChunkBuffer cfg)

/-- The index of the parity chunk that the buffer keeps. -/
def parityIndex : ℕ := b.chunkId - b.coding.dataChunkCount + 1

/-- `getWrapper`, for a stripe that may be new. -/
def getWrapper (stripeId : ℕ) : ParityChunkWrapper :=
  (b.chunks.lookup stripeId).getD ⟨List.replicate b.coding.dataChunkCount true, 0⟩

/-- The end of `update`: a parity delta is applied. -/
def applyDelta (stripeId chunkId : ℕ) (parityChunk : Memory) (isSeal backup : Bool) :
    ParityChunkBuffer cfg :=
  let wrapper := b.getWrapper stripeId
  { b with
    chunks := b.chunks.insert stripeId
      { pending := if isSeal then wrapper.pending.set chunkId false else wrapper.pending
        chunk := wrapper.chunk.xorInto 0 parityChunk 0 cfg.chunkSize }
    getChunkBuffer :=
      if backup then
        b.getChunkBuffer.updateBackup cfg.chunkSize ⟨b.listId, stripeId, b.chunkId⟩ chunkId
      else b.getChunkBuffer }

/-- The private `update`, with `none` for a failed assertion. -/
def update (stripeId chunkId offset size : ℕ) (dataChunk : Memory)
    (isSeal isDelete backup : Bool) : Option (ParityChunkBuffer cfg) :=
  let dataChunks : ℕ → Memory := Pi.single chunkId dataChunk
  let startOff := u32 (offset + chunkId * cfg.chunkSize)
  let parityChunk :=
    b.coding.encode dataChunks 0 b.parityIndex startOff (u32 (startOff + size))
  if isDelete && !isSeal then none
  else some (b.applyDelta stripeId chunkId parityChunk isSeal backup)

/-- The public `update`. -/
def updateChunk (stripeId chunkId offset : ℕ) (dataDelta : List UInt8) (isDelete : Bool) :
    Option (ParityChunkBuffer cfg) :=
  b.update stripeId chunkId offset dataDelta.length (.place offset dataDelta) false isDelete false

/-- `set`, for a request in `buf`. -/
def set (buf : Memory) (header : Deserialized) (chunkId : ℕ) :
    Option (ParityChunkBuffer cfg × Bool) :=
  let isLarge := LargeObjectUtil.isLarge cfg header.keySize header.valueSize
  let key := Key.ofMemory buf header.key header.keySize isLarge
  let keyStr := buf.read header.key header.keySize
  let valueStr := buf.read header.value header.valueSize
  match b.pending.find key with
  | none =>
    let keyValue := dup cfg keyStr header.keySize valueStr header.valueSize header.splitOffset
    let (keys, inserted) := b.keys.insertNew key keyValue
    some ({ b with keys }, inserted)
  | some pendingRequest =>
    let b := { b with pending := b.pending.eraseKey key }
    match pendingRequest with
    | .prtSeal stripeId offset =>
      let dataChunk := serialize cfg 0 offset (some keyStr) header.keySize (some valueStr)
        header.valueSize header.splitOffset
      let b := { b with folded := b.folded ++ [key] }
      (b.update stripeId chunkId offset (u32 (4 + header.keySize + header.valueSize)) dataChunk
        false false true).map fun b => (b, true)
    | .prtUpdate .. => some (b, true) -- TODO in the source
    | .prtDelete => some (b, true) -- TODO in the source

/-- `findValueByKey`. -/
def findValueByKey (key : Key) : Option Memory := b.keys.find key

/-- The local variables of the loop in `seal`. -/
structure SealLoop (cfg : GlobalConfig) where
  buffer : ParityChunkBuffer cfg
  data : Memory
  curPos : ℕ
  ret : Bool

/-- The loop in `seal`. -/
def sealStep (stripeId : ℕ) (s : SealLoop cfg) (r : SealRecord) : SealLoop cfg :=
  let b := s.buffer
  let ret := s.ret && (b.pending.find r.key).isNone
  match b.keys.find r.key with
  | none =>
    -- Defer the processing of this key
    let (pending, inserted) := b.pending.insertNew r.key (.prtSeal stripeId r.offset)
    { s with buffer := { b with pending }, ret := ret && inserted }
  | some keyValue =>
    let size := sizeAt cfg keyValue 0
    { buffer := { b with keys := b.keys.eraseKey r.key, folded := b.folded ++ [r.key] }
      data := s.data.copy r.offset keyValue 0 size
      curPos := u32 (r.offset + size)
      ret }

/-- `seal`, with `none` for a failed assertion. -/
def sealChunk (request : SealRequest) : Option (ParityChunkBuffer cfg × Bool) :=
  let s := request.records.foldl (sealStep request.stripeId) ⟨b, 0, 0, true⟩
  if request.records.length = request.count then
    (s.buffer.update request.stripeId request.chunkId 0 s.curPos s.data true false false).map
      fun b => (b, s.ret)
  else none

/-- `deleteKey`. -/
def deleteKey (key : Key) : ParityChunkBuffer cfg × Bool :=
  match b.keys.find key with
  | none => ({ b with pending := (b.pending.insertNew key .prtDelete).1 }, false)
  | some _ => ({ b with keys := b.keys.eraseKey key }, true)

/-- `updateKeyValue`. -/
def updateKeyValue (key : Key) (offset : ℕ) (valueUpdate : List UInt8) :
    ParityChunkBuffer cfg × Bool :=
  match b.keys.find key with
  | none =>
    let pendingRequest := .prtUpdate offset valueUpdate.length valueUpdate
    ({ b with pending := (b.pending.insertNew key pendingRequest).1 }, false)
  | some keyValue =>
    let dst := 4 + key.size + (if key.isLarge then 3 else 0) + offset
    let keyValue := keyValue.xorInto dst (.place 0 valueUpdate) 0 valueUpdate.length
    ({ b with keys := b.keys.assign key keyValue }, true)

/-- `ServerWorker::handleSetRequest`. -/
def handleSetRequest (body : List UInt8) (chunkId : ℕ) : Option (ParityChunkBuffer cfg) :=
  let buf := Memory.place 0 body
  match parseKeyValueHeader cfg buf body.length with
  | none => some b
  | some header =>
    let isLarge := LargeObjectUtil.isLarge cfg header.keySize header.valueSize
    let key := Key.ofMemory buf header.key header.keySize isLarge
    if (b.findValueByKey key).isSome then some b
    else (b.set buf header chunkId).map Prod.fst

/-- `ServerWorker::handleUpdateRequest` of the server peers. An update of an object that is not in
`keys` is applied to the chunk. -/
def handleUpdateRequest (header : ChunkKeyValueUpdateHeader) : Option (ParityChunkBuffer cfg) :=
  let (b, ret) := b.updateKeyValue header.key header.valueUpdateOffset header.valueUpdate
  if ret then some b
  else
    let chunk := (b.chunks.lookup header.stripeId).map ParityChunkWrapper.chunk
    let sealIndicator := (b.getWrapper header.stripeId).pending.map (!·)
    let b := { b with
      chunks := b.chunks.insert header.stripeId (b.getWrapper header.stripeId)
      getChunkBuffer := b.getChunkBuffer.insertBackup ⟨b.listId, header.stripeId, b.chunkId⟩ chunk
        sealIndicator }
    b.updateChunk header.stripeId header.chunkId header.chunkUpdateOffset header.valueUpdate false

/-- What the server does with a message. -/
def handle : Message → Option (ParityChunkBuffer cfg)
  | .set body chunkId => b.handleSetRequest body chunkId
  | .update header => b.handleUpdateRequest header
  | .delete key => some (b.deleteKey (.plain key)).1
  | .sealChunk request => (b.sealChunk request).map Prod.fst

end ParityChunkBuffer

end MemEC.Server
