import MemEC.Common.KeyValue

/-!
# Chunks

A chunk is an identifier followed by `chunkSize` bytes of data. Data chunks are
self-describing: objects are appended one behind the other, and the number of
bytes in use is found by walking over the headers until one is all zero.

The data of a chunk is a memory seen from the start of the data, so address
`chunkSize` and those behind it are whatever follows the chunk. A walk is given
as many rounds as a chunk has bytes; every object takes at least four.
-/

namespace MemEC.Common

open MemEC.Lib KeyValue

/-- `Chunk`: the `ChunkIdentifier` and the data behind it. -/
structure Chunk where
  listId : ℕ
  stripeId : ℕ
  chunkId : ℕ
  data : Memory

variable (cfg : GlobalConfig)

namespace ChunkUtil

/-- The loop of `getSize`, `getCount` and `Map::setChunk`: `visit` is what they do at an object,
given its offset and its size. -/
def scan {α : Type} (visit : α → ℕ → ℕ → α) (m : Memory) : ℕ → ℕ → α → α
  | 0, _, acc => acc
  | fuel + 1, ptr, acc =>
    if ptr + 4 < cfg.chunkSize then
      let kv := deserialize cfg m ptr
      if kv.keySize = 0 ∧ kv.valueSize = 0 then acc
      else
        let tmp := storedSize cfg kv.keySize kv.valueSize kv.splitOffset
        scan visit m fuel (ptr + tmp) (visit acc ptr tmp)
    else acc

/-- `getSize` of a data chunk. -/
def dataSize (m : Memory) : ℕ := scan cfg (fun n _ tmp => u32 (n + tmp)) m cfg.chunkSize 0 0

/-- `ChunkUtil::isParity`. -/
def isParity (dataChunkCount : ℕ) (chunk : Chunk) : Bool := dataChunkCount ≤ chunk.chunkId

/-- `ChunkUtil::getSize`. `Coding::zeros` is a chunk of zeros, in which the walk ends at once. -/
def getSize (dataChunkCount : ℕ) (chunk : Chunk) : ℕ :=
  if isParity dataChunkCount chunk then cfg.chunkSize else dataSize cfg chunk.data

/-- `ChunkUtil::getCount`. -/
def getCount (dataChunkCount : ℕ) (chunk : Chunk) : ℕ :=
  if isParity dataChunkCount chunk then 0
  else scan cfg (fun n _ _ => n + 1) chunk.data cfg.chunkSize 0 0

/-- What `ChunkUtil::next` finds: where the next object starts, and the key of this one. -/
structure Next where
  offset : ℕ
  key : ℕ
  keySize : ℕ
  isLarge : Bool
deriving DecidableEq

/-- `ChunkUtil::next`, with `none` for `-1`. -/
def next (m : Memory) (offset : ℕ) : Option Next :=
  if offset + 4 < cfg.chunkSize then
    let kv := deserialize cfg m offset
    if kv.keySize = 0 then none
    else some ⟨offset + storedSize cfg kv.keySize kv.valueSize kv.splitOffset, kv.key, kv.keySize,
      LargeObjectUtil.isLarge cfg kv.keySize kv.valueSize⟩
  else none

/-- `ChunkUtil::alloc` in a data chunk: the header of an object without a key is put at the end of
the objects, to be overwritten by the caller. Returns that offset too. The `8` is
`CHUNK_IDENTIFIER_SIZE`. -/
def alloc (m : Memory) (size : ℕ) : Memory × ℕ :=
  let offset := dataSize cfg m
  (serialize cfg m offset none 0 none (sub32 size 8) 0, offset)

/-- What `DataChunkBuffer::set` does to the data of the chunk that it chose. -/
def store (m : Memory) (o : Object cfg) : Memory × ℕ :=
  let (m, offset) := alloc cfg m o.size
  (serialize cfg m offset (some o.key) o.key.length (some o.payload) o.valueSize o.splitOffset,
    offset)

/-- `ChunkUtil::computeDelta`: the delta and the data. -/
def computeDelta (m : Memory) (newData : List UInt8) (offset length : ℕ) (applyUpdate : Bool) :
    Memory × Memory :=
  let delta := Memory.xorOf 0 0 m offset (.place 0 newData) 0 length
  (delta, if applyUpdate then m.xorInto offset delta 0 length else m)

/-- `ChunkUtil::deleteObject`: the data, the contents of the delta buffer if one is given, and the
length. The delta buffer gets a header of its own before the XORs, and the XORs cover `length`
bytes, counted from the header of the object. -/
def deleteObject (m : Memory) (offset : ℕ) (delta : Option Memory) : Memory × Option Memory × ℕ :=
  let kv := deserialize cfg m offset
  let length := u32 (kv.keySize + kv.valueSize)
  match delta with
  | some delta =>
    let delta := setSize (delta.fill 0 (4 + length) 0) 0 0 length
    let delta := delta.xorInto 0 m offset length
    (m.xorInto offset delta 0 length, some delta, length)
  | none => (m.fill offset (4 + length) 0, none, length)

variable {cfg}

/-- `next` returns a key that is not empty. -/
theorem next_some {m : Memory} {offset : ℕ} {n : Next} (h : next cfg m offset = some n) :
    offset + 4 < cfg.chunkSize ∧ n.keySize = (m offset).toNat ∧ n.keySize ≠ 0 := by
  unfold next at h
  split_ifs at h with hlt
  simp only at h
  split_ifs at h with hk
  rw [← Option.some.inj h]
  exact ⟨hlt, deserialize_keySize cfg m offset, hk⟩

theorem deleteObject_length (m : Memory) (offset : ℕ) (delta : Option Memory) :
    (deleteObject cfg m offset delta).2.2 =
      u32 ((deserialize cfg m offset).keySize + (deserialize cfg m offset).valueSize) := by
  cases delta <;> rfl

theorem deleteObject_before {m : Memory} {offset i : ℕ} (delta : Option Memory)
    (h : i < offset) : (deleteObject cfg m offset delta).1 i = m i := by
  cases delta with
  | none =>
    rw [deleteObject, Memory.fill_eq_write]
    exact Memory.write_apply_out (Or.inl h)
  | some delta => exact Memory.xorInto_apply_out (Or.inl h)

/-- What a deletion leaves behind: a header without a key, then zeros. -/
def tombstone (length : ℕ) : Memory := setSize 0 0 0 length

theorem tombstone_head (length : ℕ) : tombstone length 0 = 0 := rfl

/-- With a delta buffer, a deletion covers `length` bytes. -/
theorem deleteObject_some_apply {m delta : Memory} {offset j : ℕ}
    (h : j < (deleteObject cfg m offset (some delta)).2.2) :
    (deleteObject cfg m offset (some delta)).1 (offset + j) =
      tombstone (deleteObject cfg m offset (some delta)).2.2 j := by
  set length := (deleteObject cfg m offset (some delta)).2.2 with hlen
  rw [deleteObject_length] at hlen
  have hfill : delta.fill 0 (4 + length) 0 j = 0 := by
    simp only [Memory.fill]
    rw [if_pos (by omega)]
  have hdelta : setSize (delta.fill 0 (4 + length) 0) 0 0 length j = tombstone length j :=
    Memory.write_apply_congr hfill 0 _
  simp only [deleteObject, ← hlen]
  rw [Memory.xorInto_apply_in h]
  have hin : (setSize (delta.fill 0 (4 + length) 0) 0 0 length).xorInto 0 m offset length (0 + j) =
      setSize (delta.fill 0 (4 + length) 0) 0 0 length (0 + j) ^^^ m (offset + j) :=
    Memory.xorInto_apply_in h
  rw [hin, Nat.zero_add, hdelta, UInt8.xor_comm (tombstone length j), ← UInt8.xor_assoc,
    UInt8.xor_self, UInt8.zero_xor]

/-- A deletion that covers anything leaves a key size of zero. -/
theorem deleteObject_head {m : Memory} {offset : ℕ} (delta : Option Memory)
    (h : 0 < (deleteObject cfg m offset delta).2.2) :
    (deleteObject cfg m offset delta).1 offset = 0 := by
  cases delta with
  | none =>
    simp only [deleteObject, Memory.fill]
    rw [if_pos (by omega)]
  | some delta =>
    have := deleteObject_some_apply h
    rwa [Nat.add_zero, tombstone_head] at this

end ChunkUtil

end MemEC.Common
