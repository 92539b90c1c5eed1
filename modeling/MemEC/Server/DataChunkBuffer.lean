import MemEC.Common.ChunkPool
import MemEC.Server.SealChunk

/-!
# The data chunk buffer

A data server keeps `count` open chunks for each of its stripe lists. `set`
puts an object into the open chunk that is left with the least free space, and
replaces a chunk by a fresh one when it is full or when no open chunk has room;
the chunk that is replaced is sealed.

Chunks that are referred to by pointers in the code are positions in the chunk
pool here. A null pointer from the pool, on which the code crashes, is `none`.
-/

namespace MemEC.Server

open MemEC.Lib MemEC.Common KeyValue ChunkUtil

/-- `KeyMetadata`, with `chunk` for the chunk that `obj` points into. -/
structure KeyMetadata where
  listId : ℕ
  stripeId : ℕ
  chunkId : ℕ
  offset : ℕ
  length : ℕ
  isParityRemapped : Bool
  chunk : ℕ
deriving DecidableEq

/-- The fields of `DataChunkBuffer`. -/
structure DataChunkBuffer where
  listId : ℕ
  stripeId : ℕ
  chunkId : ℕ
  chunks : List ℕ
  sizes : List ℕ
  reInsertedChunks : List ℕ
  reInsertedChunkMaxSpace : ℕ

/-- A data chunk buffer with what its operations use of the server: the chunk pool, the stripe ids
of `Map::stripeIds[ listId ]`, the chunks for which `Map::seal` was called, and the SEAL_CHUNK
requests that were sent. -/
structure DataServer (cfg : GlobalConfig) where
  dataChunkCount : ℕ
  parityChunkCount : ℕ
  pool : ChunkPool cfg
  stripeIds : List ℕ
  sealed : List ℕ
  requests : List SealRequest
  buffer : DataChunkBuffer

variable {cfg : GlobalConfig}

/-- `ServerWorker::issueSealChunkRequest`: the request that is sent to every parity server. -/
def issueSealChunkRequest (s : DataServer cfg) (chunk : Chunk) (startPos : ℕ) :
    List SealRequest :=
  if s.parityChunkCount ≠ 0 ∧ startPos < getSize cfg s.dataChunkCount chunk then
    let r := reqSealChunk cfg chunk startPos
    if r.data = [] then [] else [r]
  else []

namespace DataServer

def chunkAt (s : DataServer cfg) (index : ℕ) : ℕ := s.buffer.chunks.getD index 0

def sizeAt (s : DataServer cfg) (index : ℕ) : ℕ := s.buffer.sizes.getD index 0

def stripeIdAt (s : DataServer cfg) (index : ℕ) : ℕ := (s.pool.chunk (s.chunkAt index)).stripeId

/-- The free space of a chunk. -/
def space (s : DataServer cfg) (c : ℕ) : ℕ :=
  sub32 cfg.chunkSize (getSize cfg s.dataChunkCount (s.pool.chunk c))

/-- `DataChunkBuffer::flushAt`. -/
def flushAt (s : DataServer cfg) (index : ℕ) : Option (DataServer cfg) :=
  let b := s.buffer
  let chunk := s.chunkAt index
  let stripeId := nextStripeId s.stripeIds b.stripeId
  match s.pool.alloc b.listId stripeId b.chunkId with
  | none => none
  | some (pool, newChunk) =>
    some { s with
      pool
      stripeIds := s.stripeIds.insert stripeId
      sealed := s.sealed ++ [chunk]
      requests := s.requests ++ issueSealChunkRequest s (s.pool.chunk chunk) 0
      buffer := { b with
        sizes := b.sizes.set index 0
        chunks := b.chunks.set index newChunk
        stripeId := u32 (stripeId + 1) } }

/-- The round of the loop of `flush` for the chunk `i`. -/
def flushStep (s : DataServer cfg) (best : ℕ × ℕ) (i : ℕ) : ℕ × ℕ :=
  if best.1 < s.sizeAt i then (s.sizeAt i, i)
  else if s.sizeAt i = best.1 then
    if s.stripeIdAt i < s.stripeIdAt best.2 then (best.1, i) else best
  else best

/-- The chunk that `DataChunkBuffer::flush` picks. -/
def flushIndex (s : DataServer cfg) : ℕ :=
  ((List.range s.buffer.chunks.length).tail.foldl s.flushStep (s.sizeAt 0, 0)).2

/-- The round of the loop of `set` that looks for a re-inserted chunk. -/
def reInsertedStep (s : DataServer cfg) (size : ℕ) (best : ℕ × Option ℕ) (c : ℕ) : ℕ × Option ℕ :=
  if size ≤ s.space c ∧ s.space c < best.1 then (s.space c, some c) else best

/-- The re-inserted chunk that `set` uses, if it uses one. -/
def pickReInserted (s : DataServer cfg) (size : ℕ) : Option ℕ :=
  if size ≤ s.buffer.reInsertedChunkMaxSpace then
    (s.buffer.reInsertedChunks.foldl (s.reInsertedStep size) (cfg.chunkSize, none)).2
  else none

/-- `reInsertedChunkMaxSpace` after a re-inserted chunk was picked. -/
def updateMaxSpace (s : DataServer cfg) (c : ℕ) : DataServer cfg :=
  if s.space c = s.buffer.reInsertedChunkMaxSpace then
    { s with buffer := { s.buffer with
      reInsertedChunkMaxSpace :=
        s.buffer.reInsertedChunks.foldl (fun n c => max n (s.space c)) 0 } }
  else s

/-- The round of the loop of `set` that looks for an open chunk. -/
def chooseStep (s : DataServer cfg) (size : ℕ) (best : ℕ × Option ℕ) (i : ℕ) : ℕ × Option ℕ :=
  let tmp := u32 (s.sizeAt i + size)
  if tmp ≤ cfg.chunkSize then
    if best.1 < tmp then (tmp, some i)
    else
      match best.2 with
      | some index =>
        if tmp = best.1 ∧ s.stripeIdAt i < s.stripeIdAt index then (best.1, some i) else best
      | none => best
  else best

/-- The open chunk that `set` picks: the one with the least free space, and of these the one with
the smallest stripe id. -/
def choose (s : DataServer cfg) (size : ℕ) : Option ℕ :=
  ((List.range s.buffer.chunks.length).foldl (s.chooseStep size) (0, none)).2

/-- Where the object goes: a re-inserted chunk, or an open chunk with its index, which is flushed
first when no chunk has room. Returns the ids of the chunk that was sealed too. -/
def pick (s : DataServer cfg) (size : ℕ) :
    Option (DataServer cfg × ℕ × Option ℕ × List Metadata) :=
  match s.pickReInserted size with
  | some c => some (s.updateMaxSpace c, c, none, [])
  | none =>
    match s.choose size with
    | some index => some (s, s.chunkAt index, some index, [])
    | none =>
      let index := s.flushIndex
      match s.flushAt index with
      | none => none
      | some s' =>
        some (s', s'.chunkAt index, some index, [(s.pool.chunk (s.chunkAt index)).metadata])

/-- The flush at the end of `set`, when the chunk is full. -/
def flushIfFull (s : DataServer cfg) (c : ℕ) (index : Option ℕ) :
    Option (DataServer cfg × List Metadata) :=
  if cfg.chunkSize ≤ u32 (getSize cfg s.dataChunkCount (s.pool.chunk c) + 4 + 4) then
    match index with
    | some index =>
      match s.flushAt index with
      | none => none
      | some s' => some (s', [(s.pool.chunk c).metadata])
    | none =>
      some ({ s with buffer := { s.buffer with
        reInsertedChunks := s.buffer.reInsertedChunks.erase c } }, [])
  else some (s, [])

/-- The part of `set` that puts the object into the chunk `c`, which is the open chunk `index` or a
re-inserted one. -/
def put (s : DataServer cfg) (c : ℕ) (index : Option ℕ) (size : ℕ) (key value : List UInt8)
    (valueSize splitOffset : ℕ) (degradedSet : Bool) : DataServer cfg × KeyMetadata :=
  let chunk := s.pool.chunk c
  let (data, offset) := alloc cfg chunk.data size
  let data := serialize cfg data offset (some key) key.length (some value) valueSize splitOffset
  let sizes := match index with
    | some i => s.buffer.sizes.modify i fun n => u32 (n + size)
    | none => s.buffer.sizes
  ({ s with
    pool := s.pool.modify c fun chunk => { chunk with data }
    buffer := { s.buffer with sizes } },
    ⟨s.buffer.listId, chunk.stripeId, s.buffer.chunkId, offset, size, degradedSet, c⟩)

/-- `DataChunkBuffer::set`, up to the insertion into the key map. Returns the metadata of the key
and the ids of the chunks that were sealed. -/
def set (s : DataServer cfg) (key value : List UInt8) (valueSize splitOffset : ℕ)
    (degradedSet : Bool) : Option (DataServer cfg × KeyMetadata × List Metadata) :=
  let size := storedSize cfg key.length valueSize splitOffset
  match s.pick size with
  | none => none
  | some (s, c, index, sealed1) =>
    let (s, md) := s.put c index size key value valueSize splitOffset degradedSet
    match s.flushIfFull c index with
    | none => none
    | some (s, sealed2) => some (s, md, sealed1 ++ sealed2)

/-- The constructor: `count` chunks without ids. -/
def allocChunks (pool : ChunkPool cfg) : ℕ → Option (ChunkPool cfg × List ℕ)
  | 0 => some (pool, [])
  | count + 1 =>
    match pool.alloc 0 0 0 with
    | none => none
    | some (pool, c) =>
      match allocChunks pool count with
      | none => none
      | some (pool, cs) => some (pool, c :: cs)

/-- The round of `DataChunkBuffer::init` for one chunk. -/
def initStep (s : DataServer cfg) (c : ℕ) : DataServer cfg :=
  let b := s.buffer
  let stripeId := nextStripeId s.stripeIds b.stripeId
  { s with
    pool := s.pool.modify c fun chunk => chunk.setIds b.listId stripeId b.chunkId
    stripeIds := s.stripeIds.insert stripeId
    buffer := { b with stripeId := u32 (stripeId + 1) } }

/-- The constructor of `DataChunkBuffer` and its `init`. -/
def create (dataChunkCount parityChunkCount : ℕ) (pool : ChunkPool cfg) (stripeIds : List ℕ)
    (count listId stripeId chunkId : ℕ) : Option (DataServer cfg) :=
  match allocChunks pool count with
  | none => none
  | some (pool, chunks) =>
    let s : DataServer cfg := ⟨dataChunkCount, parityChunkCount, pool, stripeIds, [], [],
      ⟨listId, stripeId, chunkId, chunks, List.replicate count 0, [], 0⟩⟩
    some (chunks.foldl initStep s)

end DataServer

end MemEC.Server
