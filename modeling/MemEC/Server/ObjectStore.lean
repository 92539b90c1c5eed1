import MemEC.Client.GetSplit
import MemEC.Lib.Simulation
import MemEC.Server.ChunkTable
import MemEC.Server.Map
import MemEC.Server.ObjectLog

/-!
# The objects of a data server

A data server of a stripe list puts the object of a SET request into an open chunk
and its address into the key map. GET and UPDATE requests go from the key map to
the chunk. `DataChunkBuffer::seal` replaces all open chunks by fresh ones.

The specification is a map from keys to objects. An object that did not find a
place in the key map was dropped. The code does not look at that, and the client
is told that the object is stored.

The remapped buffer, degraded requests, DELETE requests and the messages to the
parity servers are left out.
-/

namespace MemEC.Server

open MemEC.Lib MemEC.Common KeyValue LargeObjectUtil

variable {cfg : GlobalConfig} {shape : IndexShape}

/-! ## Requests -/

/-- A data server of a stripe list: the data chunk buffer with the chunk pool, the key map, and the
address of the pool. -/
structure ObjectStore (cfg : GlobalConfig) (shape : IndexShape) where
  server : DataServer cfg
  keys : CuckooHash shape.toTableShape
  startAddress : ℕ

/-- What becomes of a SET request. -/
inductive SetResult
  | existing
  | stored
  | dropped
deriving DecidableEq

inductive ObjectRequest (cfg : GlobalConfig)
  | set (o : Object cfg)
  | get (key : List UInt8)
  | update (key : List UInt8) (valueUpdateOffset : ℕ) (valueUpdate : List UInt8)
  | sealAll

inductive ObjectResponse
  | set (result : SetResult)
  | get (message : Option Client.KeyValueMessage)
  | update (success : Bool)
  | sealAll
deriving DecidableEq

namespace ObjectStore

variable (s : ObjectStore cfg shape)

/-- The memory of the pool. Nothing is read outside of it. -/
def memory : Memory := fun a =>
  let chunk := s.server.pool.chunk ((a - s.startAddress) / cfg.slotSize)
  let offset := (a - s.startAddress) % cfg.slotSize
  if offset < 8 then chunk.metadata.identifier.getD offset 0 else chunk.data (offset - 8)

/-- `keyMetadata.obj`. -/
def address (md : KeyMetadata) : ℕ := s.startAddress + md.chunk * cfg.slotSize + 8 + md.offset

/-- `ChunkPool::getChunk`: the position of the chunk in the pool, and the offset in its data. -/
def getChunk (ptr : ℕ) : ℕ × ℕ :=
  ((ptr - s.startAddress) / cfg.slotSize, sub32 (u32 ((ptr - s.startAddress) % cfg.slotSize)) 8)

variable (rand : ℕ → ℕ)

/-- `handleSetRequest` at the data server of the object. It looks for objects with the key only when
the object is not a split. -/
def handleSetRequest (o : Object cfg) : Option (ObjectStore cfg shape × SetResult) :=
  if o.isLarge = false ∧ (Map.findObject cfg s.memory s.keys o.key).isSome then some (s, .existing)
  else
    match s.server.set o.key o.payload o.valueSize o.splitOffset false with
    | none => none
    | some (server, md, _) =>
      let s' := { s with server }
      (s'.keys.insert cfg s'.memory rand o.mapKey (s'.address md)).map fun r =>
        ({ s' with keys := r.1 }, if r.2 then .stored else .dropped)

/-- The response to a GET request for the object at `ptr`. -/
def resGet (cfg : GlobalConfig) (m : Memory) (ptr : ℕ) : Client.KeyValueMessage :=
  let kv := deserialize cfg m ptr
  let isLarge := LargeObjectUtil.isLarge cfg kv.keySize kv.valueSize
  Client.generateKeyValueHeader (m.read kv.key kv.keySize) kv.valueSize
    (m.read kv.value kv.valueSize) (if isLarge then kv.splitOffset else 0)
    (if isLarge then LargeObjectUtil.splitSize cfg kv.keySize kv.valueSize else 0)

/-- `handleGetRequest`. -/
def handleGetRequest (key : List UInt8) : Option Client.KeyValueMessage :=
  (Map.lookup cfg s.memory s.keys key).map (resGet cfg s.memory)

/-- The part of `handleUpdateRequest` that changes the object at `ptr`. -/
def updateObject (ptr valueUpdateOffset : ℕ) (valueUpdate : List UInt8) : ObjectStore cfg shape :=
  let kv := deserialize cfg s.memory ptr
  let isLarge := LargeObjectUtil.isLarge cfg kv.keySize kv.valueSize
  let (c, chunkOffset) := s.getChunk ptr
  let offset := getChunkUpdateOffset chunkOffset kv.keySize valueUpdateOffset isLarge
  { s with server := { s.server with pool := s.server.pool.modify c fun chunk => { chunk with
      data :=
        (ChunkUtil.computeDelta chunk.data valueUpdate offset valueUpdate.length true).2 } } }

/-- `handleUpdateRequest`. -/
def handleUpdateRequest (key : List UInt8) (valueUpdateOffset : ℕ) (valueUpdate : List UInt8) :
    ObjectStore cfg shape × Bool :=
  match Map.lookup cfg s.memory s.keys key with
  | some ptr => (s.updateObject ptr valueUpdateOffset valueUpdate, true)
  | none => (s, false)

/-- One request. Without a result the pool has no chunk left. -/
def step (s : ObjectStore cfg shape) :
    ObjectRequest cfg → Option (ObjectStore cfg shape × ObjectResponse)
  | .set o => (s.handleSetRequest rand o).map fun r => (r.1, .set r.2)
  | .get key => some (s, .get (s.handleGetRequest key))
  | .update key valueUpdateOffset valueUpdate =>
    let r := s.handleUpdateRequest key valueUpdateOffset valueUpdate
    some (r.1, .update r.2)
  | .sealAll => s.server.seal.map fun server => ({ s with server }, .sealAll)

end ObjectStore

/-! ## The specification -/

/-- The objects of a data server, by their keys. -/
abbrev ObjectMap (cfg : GlobalConfig) := Key → Option (Object cfg)

namespace ObjectMap

/-- The object that a request for `key` is answered with. -/
def find (t : ObjectMap cfg) (key : List UInt8) : Option (Object cfg) := (lookupKeys key).findSome? t

/-- The response to a GET request. -/
def message (o : Object cfg) : Client.KeyValueMessage :=
  ⟨o.key, o.valueSize, o.splitOffset, o.payload⟩

/-- An object that is there is not set again; only splits are taken without a look. -/
def Right (t : ObjectMap cfg) : ObjectRequest cfg → ObjectResponse → Prop
  | .set o, .set result => result = .existing ↔ o.isLarge = false ∧ t o.mapKey ≠ none
  | .get key, .get response => response = (t.find key).map message
  | .update key _ _, .update success => success = (t.find key).isSome
  | .sealAll, .sealAll => True
  | _, _ => False

def next (t : ObjectMap cfg) : ObjectRequest cfg → ObjectResponse → ObjectMap cfg
  | .set o, .set .stored => Function.update t o.mapKey (some o)
  | .update key valueUpdateOffset valueUpdate, _ =>
    match t.find key with
    | some o => Function.update t o.mapKey (some (o.update valueUpdateOffset valueUpdate))
    | none => t
  | _, _ => t

theorem next_update_some {t : ObjectMap cfg} {key : List UInt8} {o : Object cfg} (h : t.find key = some o)
    (valueUpdateOffset : ℕ) (valueUpdate : List UInt8) (response : ObjectResponse) :
    t.next (.update key valueUpdateOffset valueUpdate) response =
      Function.update t o.mapKey (some (o.update valueUpdateOffset valueUpdate)) := by
  cases response <;> simp only [next, h]

theorem next_update_none {t : ObjectMap cfg} {key : List UInt8} (h : t.find key = none)
    (valueUpdateOffset : ℕ) (valueUpdate : List UInt8) (response : ObjectResponse) :
    t.next (.update key valueUpdateOffset valueUpdate) response = t := by
  cases response <;> simp only [next, h]

def spec (cfg : GlobalConfig) : Spec (ObjectMap cfg) (ObjectRequest cfg) ObjectResponse :=
  ⟨Right, next⟩

/-- No other key in the map passes for `key`. -/
def Unambiguous (t : ObjectMap cfg) (key : Key) : Prop :=
  ∀ o, t o.mapKey = some o → o.mapKey.equal key = true → o.mapKey = key

end ObjectMap

namespace ObjectStore

/-- An insertion under `key` displaces large objects from home to home only. -/
def DisplacesWell (s : ObjectStore cfg shape) (key : Key) : Prop :=
  s.keys.buckets.Full (shape.bucket₁ key.hashValue) →
    s.keys.buckets.Full (shape.bucket₂ key.hashValue) →
    LargeFaithful cfg shape s.memory s.keys (shape.bucket₂ key.hashValue)

/-- The requests that are answered rightly. A split is set once, and an update stays inside the
value. -/
def Allowed (s : ObjectStore cfg shape) (t : ObjectMap cfg) : ObjectRequest cfg → Prop
  | .set o => o.Visible ∧ t.Unambiguous o.mapKey ∧ (o.isLarge = true → t o.mapKey = none) ∧
      s.DisplacesWell o.mapKey
  | .get key => ∀ k ∈ lookupKeys key, t.Unambiguous k
  | .update key valueUpdateOffset valueUpdate => (∀ k ∈ lookupKeys key, t.Unambiguous k) ∧
      ∀ o, t.find key = some o → valueUpdateOffset + valueUpdate.length ≤ o.payload.length
  | .sealAll => True

end ObjectStore

end MemEC.Server
