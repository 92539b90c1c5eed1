import MemEC.Common.ChunkPool
import MemEC.Common.NormalProtocol
import MemEC.Server.Map

/-!
# Objects at a data server

What the server looks at when a client updates or deletes an object: the memory
with the chunks, the key map, and the remapped buffer, in which an object has
memory of its own. A chunk is preceded by the 8 bytes of its identifier
(`CHUNK_IDENTIFIER_SIZE`).

What becomes of a request is what the server hands on. The chunk is named by its
address in place of its identifiers, and the redirections of lost chunks are
left out.
-/

namespace MemEC.Common

open MemEC.Lib

namespace KeyValue

variable {cfg : GlobalConfig} {m m' : Memory} {data : ℕ}

theorem deserialize_key (cfg : GlobalConfig) (m : Memory) (data : ℕ) :
    (deserialize cfg m data).key = data + 4 := by
  simp only [deserialize]
  split_ifs <;> rfl

/-- The value starts behind the key and the split offset. -/
theorem deserialize_value (cfg : GlobalConfig) (m : Memory) (data : ℕ) :
    (deserialize cfg m data).value =
      data + 4 + Key.extent (key cfg m data).size (key cfg m data).isLarge := by
  simp only [key, Key.ofMemory, Key.extent, deserialize]
  split_ifs
  · exact Nat.add_assoc _ _ _
  · rfl

/-- A key is read from the header and from its own bytes. -/
theorem key_congr (h : ∀ i, data ≤ i →
      i < data + 4 + Key.extent (key cfg m data).size (key cfg m data).isLarge → m' i = m i) :
    key cfg m' data = key cfg m data := by
  have hhead : m' data = m data := h data le_rfl (by omega)
  have hvalue : m'.readBe (data + 1) 3 = m.readBe (data + 1) 3 :=
    congrArg ofBe (Memory.read_congr fun i h1 h2 => h i (by omega) (by omega))
  have hsize : (deserialize cfg m' data).keySize = (deserialize cfg m data).keySize := by
    rw [deserialize_keySize, deserialize_keySize, hhead]
  have hvs : (deserialize cfg m' data).valueSize = (deserialize cfg m data).valueSize := by
    simp only [deserialize, hhead, hvalue]
    split_ifs <;> rfl
  refine Key.ext ?_ ?_
  · simp only [key, Key.ofMemory, hsize, hvs]
  · simp only [key, Key.ofMemory, deserialize_key, hsize, hvs]
    exact Memory.read_congr fun i h1 h2 => h i (by omega) h2

end KeyValue

end MemEC.Common

namespace MemEC.Server

open MemEC.Lib MemEC.Common CuckooHash

/-- The state of a data server. -/
structure ObjectServer (cfg : GlobalConfig) (shape : IndexShape) where
  m : Memory
  keys : CuckooHash shape.toTableShape
  /-- `chunkPool->startAddress`. -/
  startAddress : ℕ
  /-- The chunks that `lockChunk` finds. All others are sealed. -/
  buffered : ℕ → Bool
  parityChunkCount : ℕ
  /-- `RemappedBuffer::keys`. -/
  remapped : KeyMap Memory
  in_chunk : ∀ ptr, keys.buckets.Has ptr →
    startAddress ≤ ptr ∧ 8 ≤ (ptr - startAddress) % (8 + cfg.chunkSize)
  key_remapped : ∀ key keyValue, remapped.find key = some keyValue →
    (KeyValue.key cfg keyValue 0).ident = key.ident

/-- The arguments of `sendModifyChunkRequest`. -/
structure ModifyChunk where
  key : Key
  chunk : ℕ
  offset : ℕ
  deltaSize : ℕ
  valueUpdateOffset : ℕ
  delta : Memory
  isSealed : Bool
  isUpdate : Bool

/-- What is handed on: the change of a chunk, an update of a remapped object for the parity servers,
or a response to the client. -/
inductive ObjectServerEvent
  | sendModifyChunkRequest (request : ModifyChunk)
  | remappedUpdate (key : List UInt8) (valueUpdateOffset : ℕ) (valueUpdate : List UInt8)
  | resUpdate (success : Bool)
  | resDelete (success : Bool)

/-- What is sent is the change that was made: XOR-ed into the chunk as it was, at the offset that is
sent, the delta gives the chunk as it is. -/
def ModifyChunk.Describes (request : ModifyChunk) (m m' : Memory) : Prop :=
  m.xorInto (request.chunk + 8 + request.offset) request.delta 0 request.deltaSize = m'

namespace ObjectServer

variable {cfg : GlobalConfig} {shape : IndexShape} (s : ObjectServer cfg shape)

theorem key_of_find_empty : ∀ key keyValue, (∅ : KeyMap Memory).find key = some keyValue →
    (KeyValue.key cfg keyValue 0).ident = key.ident := fun _ _ h => by cases h

/-- A write to the chunks. -/
def setMemory (m : Memory) : ObjectServer cfg shape := { s with m }

@[simp] theorem setMemory_m (m : Memory) : (s.setMemory m).m = m := rfl
@[simp] theorem setMemory_keys (m : Memory) : (s.setMemory m).keys = s.keys := rfl
@[simp] theorem setMemory_remapped (m : Memory) : (s.setMemory m).remapped = s.remapped := rfl

/-- `ChunkPool::getChunk`: the chunk, and the offset in its data. -/
def getChunk (ptr : ℕ) : ℕ × ℕ :=
  let offset := u32 ((ptr - s.startAddress) % (8 + cfg.chunkSize))
  (ptr - offset, sub32 offset 8)

/-- The data of the chunk of an object is where its offset is counted from. -/
theorem getChunk_add {ptr : ℕ} (h : s.keys.buckets.Has ptr) :
    (s.getChunk ptr).1 + 8 + (s.getChunk ptr).2 = ptr ∧ (s.getChunk ptr).2 < cfg.chunkSize := by
  obtain ⟨hstart, hdata⟩ := s.in_chunk ptr h
  have hc := cfg.chunkSize_le
  have hlt : (ptr - s.startAddress) % (8 + cfg.chunkSize) < 8 + cfg.chunkSize :=
    Nat.mod_lt _ (by omega)
  have hle := Nat.mod_le (ptr - s.startAddress) (8 + cfg.chunkSize)
  rw [getChunk, u32_eq (by omega)]
  dsimp only
  rw [sub32_eq (by omega) hdata]
  omega

end ObjectServer

/-- What a lookup finds is an entry of the map. -/
theorem Map.has_of_lookup {cfg : GlobalConfig} {shape : IndexShape} {m : Memory}
    {keys : CuckooHash shape.toTableShape} {key : List UInt8} {ptr : ℕ}
    (h : Map.lookup cfg m keys key = some ptr) : keys.buckets.Has ptr := by
  rw [Map.lookup] at h
  split at h
  · next found hfound =>
    obtain rfl := Option.some.inj h
    exact (find_eq_some hfound).1
  · split at h
    · next found hfound =>
      obtain rfl := Option.some.inj h
      split_ifs at hfound
      exact (find_eq_some hfound).1
    · exact (find_eq_some h).1

end MemEC.Server
