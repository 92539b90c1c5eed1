import MemEC.Common.ChunkPool
import MemEC.Common.CuckooHash

/-!
# The degraded map

A server to which lost chunks are redirected keeps the reconstructed chunks in
`cache`, with the objects of its data chunks in `keys`, and the objects of
unsealed chunks in `values`.

Pointers to chunks and to objects are the memories here that they point to. The
operation that a deletion records in the server's map is left out.
-/

namespace MemEC.Server

open MemEC.Lib MemEC.Common KeyValue

/-- The `KeyMetadata` of an object in a cached chunk. -/
structure CachedKey where
  metadata : Metadata
  offset : ℕ
  length : ℕ
deriving DecidableEq

/-- `DegradedMap`, up to the operations that wait for a reconstruction. `values`, `metadataRev` and
`deleted` are the fields of `unsealed`. -/
structure DegradedMap where
  keys : KeyMap CachedKey
  cache : AList fun _ : Metadata => Memory
  removed : Finset Metadata
  values : KeyMap Memory
  metadataRev : List (Metadata × Key)
  deleted : KeyMap Unit

/-- What `findValueByKey` finds: an object of a chunk, or one on its own. -/
inductive DegradedValue
  | inChunk (keyMetadata : CachedKey) (chunk : Memory)
  | unsealed (keyValue : Memory)

namespace DegradedMap

def empty : DegradedMap := ⟨∅, ∅, ∅, ∅, [], ∅⟩

variable (cfg : GlobalConfig) (dmap : DegradedMap)

/-- `findValueByKey`, with `isSealed`. -/
def findValueByKey (key : Key) : Option DegradedValue × Bool :=
  match dmap.keys.find key with
  | some keyMetadata =>
    match dmap.cache.lookup keyMetadata.metadata with
    | none => (none, true)
    | some chunk => (some (.inChunk keyMetadata chunk), true)
  | none =>
    match dmap.values.find key with
    | none => (none, false)
    | some keyValue => (some (.unsealed keyValue), false)

/-- `findChunkById`. -/
def findChunkById (metadata : Metadata) : Option Memory := dmap.cache.lookup metadata

/-- `insertKey`. -/
def insertKey (key : Key) (keyMetadata : CachedKey) : DegradedMap × Bool :=
  let (keys, inserted) := dmap.keys.insertNew key keyMetadata
  ({ dmap with keys }, inserted)

/-- `deleteKey`. -/
def deleteKey (key : Key) : DegradedMap × Option CachedKey :=
  match dmap.keys.find key with
  | none => (dmap, none)
  | some keyMetadata => ({ dmap with keys := dmap.keys.eraseKey key }, some keyMetadata)

/-- `insertValue`. -/
def insertValue (keyValue : Memory) (metadata : Metadata) : DegradedMap × Bool :=
  let key := KeyValue.key cfg keyValue 0
  let (values, inserted) := dmap.values.insertNew key keyValue
  ({ dmap with
    values
    metadataRev := if inserted then dmap.metadataRev ++ [(metadata, key)] else dmap.metadataRev },
    inserted)

/-- The entry of `metadataRev` for a key of a chunk. -/
def isEntry (metadata : Metadata) (key : Key) (entry : Metadata × Key) : Bool :=
  entry.1 = metadata && entry.2.equal key

/-- `deleteValue`, with `none` for a failed assertion. -/
def deleteValue (key : Key) (metadata : Metadata) : Option DegradedMap :=
  -- Re-insert for synchronizing the unsealed chunks
  let reInsert := fun dmap : DegradedMap =>
    { dmap with
      metadataRev := dmap.metadataRev ++ [(metadata, key)]
      deleted := (dmap.deleted.insertNew key ()).1 }
  if (dmap.values.find key).isNone then some (reInsert dmap)
  else if dmap.metadataRev.any (isEntry metadata key) then
    some (reInsert { dmap with
      values := dmap.values.eraseKey key
      metadataRev := dmap.metadataRev.eraseP (isEntry metadata key) })
  else none

/-- The loop of `insertChunk` over the objects of a data chunk. -/
def insertKeys (metadata : Metadata) (chunk : Memory) (keys : KeyMap CachedKey) :
    KeyMap CachedKey :=
  ChunkUtil.scan cfg (fun keys offset size =>
    keys.assign (KeyValue.key cfg chunk offset) ⟨metadata, offset, size⟩) chunk cfg.chunkSize 0 keys

/-- `insertChunk`. -/
def insertChunk (metadata : Metadata) (chunk : Memory) (isParity : Bool) : DegradedMap × Bool :=
  let inserted := (dmap.cache.lookup metadata).isNone
  let cache := if inserted then dmap.cache.insert metadata chunk else dmap.cache
  -- Mark the chunk as present
  let removed := dmap.removed.erase metadata
  let keys := if inserted && !isParity then insertKeys cfg metadata chunk dmap.keys else dmap.keys
  ({ dmap with cache, removed, keys }, inserted)

/-- `deleteChunk`. -/
def deleteChunk (metadata : Metadata) : DegradedMap × Option Memory :=
  match dmap.cache.lookup metadata with
  | none => (dmap, none)
  | some chunk =>
    -- Mark the chunk as absent
    ({ dmap with
      cache := dmap.cache.erase metadata
      removed := insert metadata dmap.removed }, some chunk)

/-- `findRemovedChunk`. -/
def findRemovedChunk (metadata : Metadata) : Bool := metadata ∈ dmap.removed

end DegradedMap

end MemEC.Server
