import MemEC.Common.ChunkUtil
import MemEC.Common.ObjectIndex

/-!
# The key map and the lookup of a request

`Map::keys` is an object index. A request names a key as a byte string. The
lookup tries it as the key of a plain object, then with its last three bytes as
a split offset, and then as the key of a first split.

The entries of the index are told apart by `Key::equal`, which stops at a NUL
byte.
-/

namespace MemEC.Server

open MemEC.Lib MemEC.Common Slots CuckooHash

/-- The key of a split, given with its split offset. -/
def splitKey (data : List UInt8) (h : 3 ≤ data.length) : Key :=
  ⟨data.length - 3, true, data, (Nat.sub_add_cancel h).symm⟩

theorem three_le_append (key : List UInt8) : 3 ≤ (key ++ [0, 0, 0]).length := by simp

namespace Map

variable (cfg : GlobalConfig) {shape : IndexShape} (m : Memory)
  (keys : CuckooHash shape.toTableShape)

/-- `findObject`. -/
def findObject (key : List UInt8) : Option ℕ := keys.find cfg m (.plain key)

/-- `findLargeObject`, for a key that stands in front of a split offset. -/
def findLargeObject (data : List UInt8) (h : 3 ≤ data.length) : Option ℕ :=
  keys.find cfg m (splitKey data h)

/-- The lookup of `handleGetRequest` and of `handleUpdateRequest`. -/
def lookup (key : List UInt8) : Option ℕ :=
  match findObject cfg m keys key with
  | some ptr => some ptr
  | none =>
    match (if h : 3 < key.length then findLargeObject cfg m keys key h.le else none) with
    | some ptr => some ptr
    | none => findLargeObject cfg m keys (key ++ [0, 0, 0]) (three_le_append key)

/-- `deleteKey`. -/
def deleteKey (key : List UInt8) : CuckooHash shape.toTableShape × Bool :=
  if (keys.find cfg m (.plain key)).isSome then (keys.del cfg m (.plain key), true)
  else (keys, false)

/-- The objects over which the loop of `setChunk` goes, for a chunk whose data is at `data`. -/
def chunkObjects (data : ℕ) : List ℕ :=
  ChunkUtil.scan cfg (fun ptrs offset _ => ptrs ++ [data + offset]) (fun i => m (data + i))
    cfg.chunkSize 0 []

/-- The key that the loop of `setChunk` inserts an object with. -/
def chunkKey (ptr : ℕ) : Key :=
  let kv := KeyValue.deserialize cfg m ptr
  .ofMemory m kv.key kv.keySize false

end Map

/-! ## Runs -/

/-- What the server does with the key map: `insertKey`, `deleteKey`, `setChunk` of a data chunk, and
changes of the memory. -/
inductive MapOp
  | insertKey (key : Key) (ptr : ℕ)
  | deleteKey (key : List UInt8)
  | setChunk (data : ℕ)
  | store (m : Memory)

/-- The key map, the memory with the objects, and the objects that were stored and not deleted. -/
structure KeyMapState (shape : IndexShape) where
  keys : CuckooHash shape.toTableShape
  m : Memory
  stored : List ℕ

namespace KeyMapState

variable {cfg : GlobalConfig} {shape : IndexShape} {rand : ℕ → ℕ} {s : KeyMapState shape}

def start (shape : IndexShape) (m : Memory) : KeyMapState shape := ⟨.init shape.toTableShape, m, []⟩

/-- The key of a stored object. -/
def ownKey (cfg : GlobalConfig) (s : KeyMapState shape) (ptr : ℕ) : Key :=
  KeyValue.key cfg s.m ptr

/-- `insertKey`. -/
def insertKey (cfg : GlobalConfig) (rand : ℕ → ℕ) (s : KeyMapState shape) (key : Key) (ptr : ℕ) :
    Option (KeyMapState shape) :=
  (s.keys.insert cfg s.m rand key ptr).map fun r =>
    { s with keys := r.1, stored := if r.2 then ptr :: s.stored else s.stored }

/-- The round of the loop of `setChunk` for one object. -/
def setChunkStep (cfg : GlobalConfig) (rand : ℕ → ℕ) (s : KeyMapState shape) (ptr : ℕ) :
    Option (KeyMapState shape) := insertKey cfg rand s (Map.chunkKey cfg s.m ptr) ptr

/-- One operation. A deletion of a key ends the life of the plain objects with this key. -/
def step (cfg : GlobalConfig) (rand : ℕ → ℕ) (s : KeyMapState shape) :
    MapOp → Option (KeyMapState shape)
  | .insertKey key ptr => insertKey cfg rand s key ptr
  | .deleteKey key => some { s with
      keys := (Map.deleteKey cfg s.m s.keys key).1
      stored := s.stored.filter fun ptr => s.ownKey cfg ptr ≠ .plain key }
  | .setChunk data => tryRun (setChunkStep cfg rand) s (Map.chunkObjects cfg s.m data)
  | .store m => some { s with m := m }

/-- The state after the operations. -/
def after (cfg : GlobalConfig) (rand : ℕ → ℕ) (s : KeyMapState shape) (ops : List MapOp) :
    Option (KeyMapState shape) := tryRun (step cfg rand) s ops

/-- No entry of the map has a key that is not `key` but passes for it. -/
def Distinct (cfg : GlobalConfig) (s : KeyMapState shape) (key : Key) : Prop :=
  ∀ ptr, s.keys.buckets.Has ptr → (s.ownKey cfg ptr).equal key = true → s.ownKey cfg ptr = key

/-- The operations after which requests are answered rightly. -/
def Allowed (cfg : GlobalConfig) (rand : ℕ → ℕ) (s : KeyMapState shape) : MapOp → Prop
  | .insertKey key ptr => InsertOk cfg shape s.m s.keys key ptr
  | .deleteKey key => s.Distinct cfg (.plain key)
  | .setChunk data => ∀ n ptr s', (Map.chunkObjects cfg s.m data)[n]? = some ptr →
      tryRun (setChunkStep cfg rand) s ((Map.chunkObjects cfg s.m data).take n) = some s' →
      InsertOk cfg shape s'.m s'.keys (Map.chunkKey cfg s'.m ptr) ptr
  | .store m => ∀ ptr, s.keys.buckets.Has ptr → KeyValue.key cfg m ptr = s.ownKey cfg ptr

/-- What every caller keeps to: an object is inserted with its own key, and the keys of stored
objects are not overwritten. -/
def WellUsed (cfg : GlobalConfig) (s : KeyMapState shape) : MapOp → Prop
  | .insertKey key ptr => ptr ≠ 0 ∧ key = s.ownKey cfg ptr
  | .deleteKey _ => True
  | .setChunk data => 0 < data
  | .store m => ∀ ptr, s.keys.buckets.Has ptr → KeyValue.key cfg m ptr = s.ownKey cfg ptr

/-- A request for `key` is for a plain object with this key, for a split whose key and split offset
are these bytes, or for the first split of an object with this key. -/
inductive Asks (key : List UInt8) : Key → Prop
  | plain : Asks key (.plain key)
  | split (h : 3 < key.length) : Asks key (splitKey key h.le)
  | firstSplit : Asks key (splitKey (key ++ [0, 0, 0]) (three_le_append key))

/-- A request hits only what it asks for, and finds it if it is stored. -/
structure Answered (cfg : GlobalConfig) (s : KeyMapState shape) (key : List UInt8) : Prop where
  hit : ∀ ptr, Map.lookup cfg s.m s.keys key = some ptr →
    s.keys.buckets.Has ptr ∧ Asks key (s.ownKey cfg ptr)
  found : ∀ ptr ∈ s.stored, Asks key (s.ownKey cfg ptr) → Map.lookup cfg s.m s.keys key ≠ none

structure Inv (cfg : GlobalConfig) (s : KeyMapState shape) : Prop where
  housed : s.keys.buckets.Housed (ownHomes cfg shape s.m)
  has_of_stored : ∀ ptr ∈ s.stored, s.keys.buckets.Has ptr

theorem Inv.start (m : Memory) : (start shape m).Inv cfg where
  housed _ ha := absurd rfl ha
  has_of_stored _ hp := absurd hp List.not_mem_nil

theorem Inv.insertKey (h : s.Inv cfg) {key : Key} {ptr : ℕ}
    (ha : InsertOk cfg shape s.m s.keys key ptr) (rand : ℕ → ℕ) :
    ∃ s', insertKey cfg rand s key ptr = some s' ∧ s'.Inv cfg := by
  obtain ⟨t', ok, ht', hhoused, hstored⟩ := ha.has_live rand h.housed h.has_of_stored
  exact ⟨_, by rw [KeyMapState.insertKey, ht']; rfl, hhoused, hstored⟩

/-- What `find` returns is an entry with the key, when nothing passes for it. -/
theorem Distinct.find_some {key : Key} (h : s.Distinct cfg key) {ptr : ℕ}
    (hfind : s.keys.find cfg s.m key = some ptr) :
    s.keys.buckets.Has ptr ∧ s.ownKey cfg ptr = key := by
  obtain ⟨hhas, heq⟩ := find_eq_some hfind
  rw [isEqual_index] at heq
  exact ⟨hhas, h ptr hhas heq⟩

theorem Inv.find_ne_none (h : s.Inv cfg) {ptr : ℕ} (hp : ptr ∈ s.stored) :
    s.keys.find cfg s.m (s.ownKey cfg ptr) ≠ none := by
  intro hnone
  obtain ⟨hne, a, rfl⟩ := h.has_of_stored ptr hp
  have hfalse := find_eq_none hnone (h.housed a hne) hne
  have htrue : (s.ownKey cfg (s.keys.buckets a)).equal (s.ownKey cfg (s.keys.buckets a)) = true :=
    (Key.equal_iff _ _).mpr ⟨rfl, rfl, rfl⟩
  rw [isEqual_index] at hfalse
  exact absurd (htrue.symm.trans hfalse) (by decide)

theorem Inv.deleteKey (h : s.Inv cfg) {key : List UInt8} (ha : s.Distinct cfg (.plain key)) :
    ∃ s', step cfg rand s (.deleteKey key) = some s' ∧ s'.Inv cfg := by
  refine ⟨_, rfl, ?_⟩
  cases hfind : s.keys.find cfg s.m (.plain key) with
  | none =>
    have hdel : Map.deleteKey cfg s.m s.keys key = (s.keys, false) := by
      simp [Map.deleteKey, hfind]
    rw [hdel]
    exact ⟨h.housed, fun q hq => h.has_of_stored q (List.mem_of_mem_filter hq)⟩
  | some ptr =>
    have hdel : Map.deleteKey cfg s.m s.keys key = (s.keys.del cfg s.m (.plain key), true) := by
      simp [Map.deleteKey, hfind]
    rw [hdel]
    refine ⟨housed_del cfg s.m _ h.housed, fun q hq => ?_⟩
    rw [List.mem_filter, decide_eq_true_eq] at hq
    refine has_del (h.has_of_stored q hq.1) fun hq' => ?_
    exact hq.2 (ha.find_some hq').2

theorem Inv.step (h : s.Inv cfg) {op : MapOp} (ha : s.Allowed cfg rand op) :
    ∃ s', step cfg rand s op = some s' ∧ s'.Inv cfg := by
  cases op with
  | insertKey key ptr => exact h.insertKey ha rand
  | deleteKey key => exact h.deleteKey ha
  | setChunk data =>
    exact tryRun_invariant (Inv cfg)
      (fun s ptr => InsertOk cfg shape s.m s.keys (Map.chunkKey cfg s.m ptr) ptr) h
      (fun s ptr hs hok => hs.insertKey hok rand) _ ha
  | store m => exact ⟨_, rfl, housed_congr h.housed ha, h.has_of_stored⟩

/-- No entry passes for one of the keys that a request looks up. -/
def NoAlias (cfg : GlobalConfig) (s : KeyMapState shape) (key : List UInt8) : Prop :=
  ∀ k, Asks key k → s.Distinct cfg k

theorem Inv.answered (h : s.Inv cfg) {key : List UInt8} (hk : s.NoAlias cfg key) :
    s.Answered cfg key := by
  constructor
  · intro ptr hptr
    simp only [Map.lookup] at hptr
    split at hptr
    · next p hp =>
      obtain rfl := Option.some.inj hptr
      obtain ⟨hhas, hown⟩ := (hk _ .plain).find_some hp
      exact ⟨hhas, hown ▸ .plain⟩
    · split at hptr
      · next p hp =>
        obtain rfl := Option.some.inj hptr
        split_ifs at hp with hlen
        obtain ⟨hhas, hown⟩ := (hk _ (.split hlen)).find_some hp
        exact ⟨hhas, hown ▸ .split hlen⟩
      · obtain ⟨hhas, hown⟩ := (hk _ .firstSplit).find_some hptr
        exact ⟨hhas, hown ▸ .firstSplit⟩
  · intro ptr hp hasks hnone
    have hfind := h.find_ne_none hp
    simp only [Map.lookup] at hnone
    split at hnone
    · cases hnone
    · next hplain =>
      split at hnone
      · cases hnone
      · next hsplit =>
        generalize s.ownKey cfg ptr = own at hasks hfind
        cases hasks with
        | plain => exact hfind hplain
        | split hlen =>
          rw [dif_pos hlen] at hsplit
          exact hfind hsplit
        | firstSplit => exact hfind hnone

/-- In a run of allowed operations, every request for which no entry passes wrongly is answered
rightly. -/
theorem answered_after (cfg : GlobalConfig) (rand : ℕ → ℕ) (m : Memory) (ops : List MapOp)
    (hallowed : ∀ n op s, ops[n]? = some op →
      after cfg rand (start shape m) (ops.take n) = some s → s.Allowed cfg rand op) :
    ∃ s, after cfg rand (start shape m) ops = some s ∧
      ∀ key, s.NoAlias cfg key → s.Answered cfg key := by
  obtain ⟨s, hs, h⟩ := tryRun_invariant (Inv cfg) (Allowed cfg rand) (Inv.start m)
    (fun s op hs ha => hs.step ha) ops hallowed
  exact ⟨s, hs, fun key hk => h.answered hk⟩

/-! ## Keys with a NUL byte -/

/-- A plain object at 32, with a key that begins with NUL. -/
def nulObject : Memory :=
  Memory.place 32 [8, 0, 0, 1, 0, 0x6d, 0x6d, 0x6d, 0x6d, 0x6d, 0x6d, 0x6d, 0x76]

/-- Another key of the same hash that begins with NUL. -/
def nulKey : List UInt8 := [0, 0x70, 0x74, 0x62, 0x68, 0x67, 0x6f, 0x6f]

def nulRun : List MapOp := [.insertKey (KeyValue.key .smallest nulObject 32) 32]

/-- A request for the other key hits the object. -/
theorem not_answered_of_nulKey :
    ¬∀ ops : List MapOp, (∀ n op s, ops[n]? = some op →
        after .smallest (fun _ => 0) (start .default nulObject) (ops.take n) = some s →
        s.WellUsed .smallest op) →
      ∃ s, after .smallest (fun _ => 0) (start .default nulObject) ops = some s ∧
        ∀ key : List UInt8, 1 ≤ key.length → key.length ≤ 255 → s.Answered .smallest key := by
  intro h
  have hhit : (after .smallest (fun _ => 0) (start .default nulObject) nulRun).map (fun s =>
      decide (Map.lookup .smallest s.m s.keys nulKey = some 32 ∧
        (s.ownKey .smallest 32).data ≠ nulKey ∧ (s.ownKey .smallest 32).isLarge = false)) =
      some true := by
    decide +kernel
  have hrun := h nulRun fun n op s hop hs => by
    have hn : n < 1 := (List.getElem?_eq_some_iff.mp hop).1
    obtain rfl : n = 0 := by omega
    obtain rfl := Option.some.inj hop
    obtain rfl := Option.some.inj hs
    exact ⟨by decide, rfl⟩
  obtain ⟨s, hs, hanswered⟩ := hrun
  rw [hs] at hhit
  obtain ⟨hlookup, hdata, hlarge⟩ := of_decide_eq_true (Option.some.inj hhit)
  have hasks := ((hanswered nulKey (by decide) (by decide)).hit 32 hlookup).2
  generalize s.ownKey .smallest 32 = own at hasks hdata hlarge
  cases hasks with
  | plain => exact hdata rfl
  | split hlen => cases hlarge
  | firstSplit => cases hlarge

/-- A split is inserted, and a chunk with one plain object is set. -/
def sampleRun : List MapOp :=
  [.insertKey (KeyValue.key .smallest ObjectIndex.sampleObjects 160) 160, .setChunk 64]

def sampleAfter (ops : List MapOp) : Option (KeyMapState .default) :=
  after .smallest (fun _ => 0) (start .default ObjectIndex.sampleObjects) ops

theorem answered_after_sample : ∃ s, sampleAfter sampleRun = some s ∧
    ∀ key, s.NoAlias .smallest key → s.Answered .smallest key := by
  refine answered_after .smallest (fun _ => 0) ObjectIndex.sampleObjects sampleRun ?_
  have hfirst : (sampleAfter []).map (fun s =>
      decide (s.keys.buckets (IndexShape.default.bucket₁
        (KeyValue.key .smallest ObjectIndex.sampleObjects 160).hashValue, 3) = 0)) = some true := by
    decide +kernel
  have hsecond : (sampleAfter [sampleRun[0]]).map (fun s =>
      decide (Map.chunkObjects .smallest s.m 64 = [64] ∧
        (Map.chunkKey .smallest s.m 64).hashValue = (KeyValue.key .smallest s.m 64).hashValue ∧
        s.keys.buckets (IndexShape.default.bucket₁
          (Map.chunkKey .smallest s.m 64).hashValue, 3) = 0)) = some true := by
    decide +kernel
  intro n op s hop hs
  have hn : n < 2 := (List.getElem?_eq_some_iff.mp hop).1
  have hs' : sampleAfter (sampleRun.take n) = some s := hs
  interval_cases n
  · obtain rfl := Option.some.inj hop
    have hs₀ : sampleAfter [] = some s := hs'
    rw [hs₀] at hfirst
    obtain rfl := Option.some.inj hs₀
    have hfree := of_decide_eq_true (Option.some.inj hfirst)
    exact ⟨by decide, rfl, fun hfull => absurd hfree (hfull 3)⟩
  · obtain rfl := Option.some.inj hop
    have hs₁ : sampleAfter [sampleRun[0]] = some s := hs'
    rw [hs₁] at hsecond
    obtain ⟨hobjects, hhash, hfree⟩ := of_decide_eq_true (Option.some.inj hsecond)
    intro k ptr s' hk hs''
    rw [hobjects] at hk hs''
    have hk1 : k < 1 := (List.getElem?_eq_some_iff.mp hk).1
    obtain rfl : k = 0 := by omega
    obtain rfl := Option.some.inj hk
    obtain rfl := Option.some.inj hs''
    exact ⟨by decide, hhash, fun hfull => absurd hfree (hfull 3)⟩

end KeyMapState

end MemEC.Server
