import MemEC.Common.ChunkLayout
import MemEC.Lib.Run
import MemEC.Server.DegradedMap

/-!
# Lookups in the degraded map

A lookup trusts `keys` first: a key with an entry is in the chunk that the entry
names, or nowhere. The map is compared with a store that has the cached chunks,
their objects, and the objects on their own.

Only `deleteKey` takes entries away. A chunk that is deleted while it has objects
leaves entries that point to no chunk.
-/

namespace MemEC.Server

open MemEC.Lib MemEC.Common KeyValue

/-- The operations on the data. -/
inductive DegradedOp
  | insertChunk (metadata : Metadata) (chunk : Memory) (isParity : Bool)
  | deleteChunk (metadata : Metadata)
  | insertKey (key : Key) (keyMetadata : CachedKey)
  | deleteKey (key : Key)
  | insertValue (keyValue : Memory) (metadata : Metadata)
  | deleteValue (key : Key) (metadata : Metadata)

variable (cfg : GlobalConfig)

def DegradedMap.apply (dmap : DegradedMap) : DegradedOp → Option DegradedMap
  | .insertChunk metadata chunk isParity => some (dmap.insertChunk cfg metadata chunk isParity).1
  | .deleteChunk metadata => some (dmap.deleteChunk metadata).1
  | .insertKey key keyMetadata => some (dmap.insertKey key keyMetadata).1
  | .deleteKey key => some (dmap.deleteKey key).1
  | .insertValue keyValue metadata => some (dmap.insertValue cfg keyValue metadata).1
  | .deleteValue key metadata => dmap.deleteValue key metadata

/-- The map after the operations, unless an assertion fails. -/
def DegradedMap.after (ops : List DegradedOp) : Option DegradedMap :=
  tryRun (DegradedMap.apply cfg) .empty ops

/-! ## The store -/

/-- The cached chunks, the objects that they contain, and the objects on their own. -/
structure DegradedStore where
  chunks : Metadata → Option Memory
  objects : Set (Key.Ident × CachedKey)
  values : Key.Ident → Option Memory
  cached : ∀ o ∈ objects, (chunks o.2.metadata).isSome

/-- The objects that a walk over the chunk finds, with their offsets and sizes. -/
def chunkObjects (metadata : Metadata) (chunk : Memory) : List (Key.Ident × CachedKey) :=
  (ChunkUtil.scan cfg (fun found offset size => found ++ [(offset, size)]) chunk
    cfg.chunkSize 0 []).map fun p => ((KeyValue.key cfg chunk p.1).ident, ⟨metadata, p.1, p.2⟩)

namespace DegradedStore

def empty : DegradedStore := ⟨fun _ => none, ∅, fun _ => none, fun _ ho => absurd ho id⟩

variable (s : DegradedStore)

/-- A chunk that is cached is not inserted again. -/
def insertChunk (metadata : Metadata) (chunk : Memory) (isParity : Bool) : DegradedStore where
  chunks := Function.update s.chunks metadata (some ((s.chunks metadata).getD chunk))
  objects := s.objects ∪
    {o | s.chunks metadata = none ∧ isParity = false ∧ o ∈ chunkObjects cfg metadata chunk}
  values := s.values
  cached := by
    rintro o (ho | ⟨-, -, ho⟩)
    · by_cases heq : o.2.metadata = metadata
      · rw [heq, Function.update_self]
        rfl
      · rw [Function.update_of_ne heq]
        exact s.cached o ho
    · obtain ⟨p, -, rfl⟩ := List.mem_map.mp ho
      rw [Function.update_self]
      rfl

/-- The objects of the chunk go with it. -/
def deleteChunk (metadata : Metadata) : DegradedStore where
  chunks := Function.update s.chunks metadata none
  objects := {o ∈ s.objects | o.2.metadata ≠ metadata}
  values := s.values
  cached := by
    rintro o ⟨ho, hne⟩
    rw [Function.update_of_ne hne]
    exact s.cached o ho

/-- The chunk contains the object, unless a chunk contains the key already. -/
def insertKey (k : Key.Ident) (keyMetadata : CachedKey) : DegradedStore where
  chunks := s.chunks
  objects := s.objects ∪ {o | o = (k, keyMetadata) ∧ (s.chunks keyMetadata.metadata).isSome ∧
    ∀ keyMetadata', (k, keyMetadata') ∉ s.objects}
  values := s.values
  cached := by
    rintro o (ho | ⟨rfl, hcached, -⟩)
    · exact s.cached o ho
    · exact hcached

def deleteKey (k : Key.Ident) : DegradedStore where
  chunks := s.chunks
  objects := {o ∈ s.objects | o.1 ≠ k}
  values := s.values
  cached := fun o ho => s.cached o ho.1

def insertValue (k : Key.Ident) (keyValue : Memory) : DegradedStore :=
  { s with values := Function.update s.values k (some ((s.values k).getD keyValue)) }

def deleteValue (k : Key.Ident) : DegradedStore :=
  { s with values := Function.update s.values k none }

theorem values_deleteValue_self (k : Key.Ident) : (s.deleteValue k).values k = none := by
  simp [deleteValue]

theorem values_deleteValue_of_ne {k k' : Key.Ident} (h : k' ≠ k) :
    (s.deleteValue k).values k' = s.values k' := by
  simp [deleteValue, h]

def apply : DegradedOp → DegradedStore
  | .insertChunk metadata chunk isParity => s.insertChunk cfg metadata chunk isParity
  | .deleteChunk metadata => s.deleteChunk metadata
  | .insertKey key keyMetadata => s.insertKey key.ident keyMetadata
  | .deleteKey key => s.deleteKey key.ident
  | .insertValue keyValue _ => s.insertValue (KeyValue.key cfg keyValue 0).ident keyValue
  | .deleteValue key _ => s.deleteValue key.ident

/-- The store after the operations. -/
def after (ops : List DegradedOp) : DegradedStore := run (DegradedStore.apply cfg) .empty ops

/-- What a lookup of `k` is to find: an object of a cached chunk that contains `k`, if there is one,
or else the object on its own. -/
def Finds (k : Key.Ident) : Option DegradedValue → Prop
  | some (.inChunk keyMetadata chunk) =>
    (k, keyMetadata) ∈ s.objects ∧ s.chunks keyMetadata.metadata = some chunk
  | some (.unsealed keyValue) =>
    (∀ keyMetadata, (k, keyMetadata) ∉ s.objects) ∧ s.values k = some keyValue
  | none => (∀ keyMetadata, (k, keyMetadata) ∉ s.objects) ∧ s.values k = none

end DegradedStore

/-- Lookups find what they are to find, and no key points to a chunk that is not there. -/
structure DegradedMap.Answers (dmap : DegradedMap) (s : DegradedStore) : Prop where
  finds : ∀ key : Key, s.Finds key.ident (dmap.findValueByKey key).1
  cached : ∀ (key : Key) keyMetadata, dmap.keys.find key = some keyMetadata →
    (dmap.findChunkById keyMetadata.metadata).isSome

/-- No key points to a chunk that is deleted, and a key is not inserted for a chunk that is not
there. -/
def DegradedMap.Allows (dmap : DegradedMap) : DegradedOp → Prop
  | .deleteChunk metadata => ∀ (key : Key) keyMetadata, dmap.keys.find key = some keyMetadata →
    keyMetadata.metadata ≠ metadata
  | .insertKey key keyMetadata => (dmap.keys.find key).isSome ∨
    (dmap.findChunkById keyMetadata.metadata).isSome
  | _ => True

/-! ## The map keeps the store -/

/-- The containers agree with the store. -/
structure DegradedMap.Keeps (dmap : DegradedMap) (s : DegradedStore) : Prop where
  chunks : ∀ metadata, dmap.cache.lookup metadata = s.chunks metadata
  values : ∀ k, dmap.values.lookup k = s.values k
  present : ∀ (key : Key) keyMetadata, dmap.keys.find key = some keyMetadata →
    (key.ident, keyMetadata) ∈ s.objects
  absent : ∀ key : Key, dmap.keys.find key = none →
    ∀ keyMetadata, (key.ident, keyMetadata) ∉ s.objects

namespace DegradedMap

variable {cfg} {dmap : DegradedMap} {s : DegradedStore}

theorem keeps_empty : Keeps .empty .empty where
  chunks _ := rfl
  values _ := rfl
  present _ _ h := nomatch h
  absent _ _ _ := id

theorem Keeps.answers (h : dmap.Keeps s) : dmap.Answers s := by
  constructor
  · intro key
    rw [findValueByKey]
    cases hkey : dmap.keys.find key with
    | some keyMetadata =>
      have hmem := h.present key keyMetadata hkey
      obtain ⟨chunk, hchunk⟩ := Option.isSome_iff_exists.mp (s.cached _ hmem)
      have hlookup := (h.chunks keyMetadata.metadata).trans hchunk
      simp only [hlookup]
      exact ⟨hmem, hchunk⟩
    | none =>
      have hfind : dmap.values.find key = s.values key.ident := h.values key.ident
      rw [hfind]
      cases hvalue : s.values key.ident with
      | some keyValue => exact ⟨h.absent key hkey, hvalue⟩
      | none => exact ⟨h.absent key hkey, hvalue⟩
  · intro key keyMetadata hkey
    rw [findChunkById, h.chunks]
    exact s.cached _ (h.present key keyMetadata hkey)

/-- The objects of a chunk get the entries, and those of the other keys stay. -/
theorem find_insertKeys (metadata : Metadata) (chunk : Memory) (keys : KeyMap CachedKey)
    (key : Key) :
    (∃ keyMetadata, (key.ident, keyMetadata) ∈ chunkObjects cfg metadata chunk ∧
        (insertKeys cfg metadata chunk keys).find key = some keyMetadata) ∨
      ((∀ keyMetadata, (key.ident, keyMetadata) ∉ chunkObjects cfg metadata chunk) ∧
        (insertKeys cfg metadata chunk keys).find key = keys.find key) := by
  have hfold : insertKeys cfg metadata chunk keys = _ :=
    (ChunkUtil.scan_foldl (fun (keys : KeyMap CachedKey) offset size =>
      keys.assign (KeyValue.key cfg chunk offset) ⟨metadata, offset, size⟩) chunk
      cfg.chunkSize 0 [] keys).symm
  rw [hfold]
  rcases KeyMap.find_foldl_assign (fun p : ℕ × ℕ => KeyValue.key cfg chunk p.1)
    (fun p => (⟨metadata, p.1, p.2⟩ : CachedKey)) keys
    (ChunkUtil.scan cfg (fun found offset size => found ++ [(offset, size)]) chunk
      cfg.chunkSize 0 []) key with ⟨p, hp, hident, hfind⟩ | ⟨hne, hfind⟩
  · refine Or.inl ⟨⟨metadata, p.1, p.2⟩, List.mem_map.mpr ⟨p, hp, ?_⟩, hfind⟩
    rw [hident]
  · refine Or.inr ⟨fun keyMetadata hmem => ?_, hfind⟩
    obtain ⟨p, hp, heq⟩ := List.mem_map.mp hmem
    exact hne p hp (congrArg Prod.fst heq)

theorem Keeps.insertChunk (h : dmap.Keeps s) (metadata : Metadata) (chunk : Memory)
    (isParity : Bool) :
    (dmap.insertChunk cfg metadata chunk isParity).1.Keeps
      (s.insertChunk cfg metadata chunk isParity) := by
  have hlookup := h.chunks metadata
  cases hchunk : s.chunks metadata with
  | some old =>
    rw [hchunk] at hlookup
    constructor
    · intro metadata'
      simp only [DegradedMap.insertChunk, DegradedStore.insertChunk, hlookup, hchunk,
        Option.isNone_some, Bool.false_eq_true, if_false, Option.getD_some]
      by_cases heq : metadata' = metadata
      · rw [heq, Function.update_self, hlookup]
      · rw [Function.update_of_ne heq, h.chunks]
    · exact h.values
    · intro key keyMetadata hkey
      simp only [DegradedMap.insertChunk, hlookup, Option.isNone_some, Bool.false_and,
        Bool.false_eq_true, if_false] at hkey
      exact Or.inl (h.present key keyMetadata hkey)
    · intro key hkey keyMetadata
      simp only [DegradedMap.insertChunk, hlookup, Option.isNone_some, Bool.false_and,
        Bool.false_eq_true, if_false] at hkey
      rintro (hmem | ⟨hnone, -⟩)
      · exact h.absent key hkey keyMetadata hmem
      · rw [hchunk] at hnone
        cases hnone
  | none =>
    rw [hchunk] at hlookup
    have hkeys : (dmap.insertChunk cfg metadata chunk isParity).1.keys =
        if isParity then dmap.keys else insertKeys cfg metadata chunk dmap.keys := by
      cases isParity <;> simp [DegradedMap.insertChunk, hlookup]
    constructor
    · intro metadata'
      simp only [DegradedMap.insertChunk, DegradedStore.insertChunk, hlookup, hchunk,
        Option.isNone_none, if_true, Option.getD_none]
      by_cases heq : metadata' = metadata
      · rw [heq, Function.update_self, AList.lookup_insert]
      · rw [Function.update_of_ne heq, AList.lookup_insert_ne heq, h.chunks]
    · exact h.values
    · intro key keyMetadata hkey
      rw [hkeys] at hkey
      cases isParity with
      | true => exact Or.inl (h.present key keyMetadata hkey)
      | false =>
        rw [if_neg Bool.false_ne_true] at hkey
        rcases find_insertKeys metadata chunk dmap.keys key with ⟨found, hmem, hfind⟩ | ⟨-, hfind⟩
        · obtain rfl : found = keyMetadata := Option.some.inj (hfind.symm.trans hkey)
          exact Or.inr ⟨hchunk, rfl, hmem⟩
        · exact Or.inl (h.present key keyMetadata (hfind.symm.trans hkey))
    · intro key hkey keyMetadata
      rw [hkeys] at hkey
      cases isParity with
      | true =>
        rintro (hmem | ⟨-, hdata, -⟩)
        · exact h.absent key hkey keyMetadata hmem
        · cases hdata
      | false =>
        rw [if_neg Bool.false_ne_true] at hkey
        rcases find_insertKeys metadata chunk dmap.keys key with ⟨_, _, hfind⟩ | ⟨hne, hfind⟩
        · rw [hfind] at hkey
          cases hkey
        · rintro (hmem | ⟨-, -, hmem⟩)
          · exact h.absent key (hfind.symm.trans hkey) keyMetadata hmem
          · exact hne keyMetadata hmem

theorem deleteChunk_keys (metadata : Metadata) :
    (dmap.deleteChunk metadata).1.keys = dmap.keys := by
  rw [DegradedMap.deleteChunk]
  cases dmap.cache.lookup metadata <;> rfl

theorem deleteChunk_values (metadata : Metadata) :
    (dmap.deleteChunk metadata).1.values = dmap.values := by
  rw [DegradedMap.deleteChunk]
  cases dmap.cache.lookup metadata <;> rfl

theorem lookup_deleteChunk (metadata metadata' : Metadata) :
    (dmap.deleteChunk metadata).1.cache.lookup metadata' =
      Function.update (fun m => dmap.cache.lookup m) metadata none metadata' := by
  rw [DegradedMap.deleteChunk]
  by_cases heq : metadata' = metadata
  · subst heq
    rw [Function.update_self]
    cases hlookup : dmap.cache.lookup metadata' with
    | none => exact hlookup
    | some chunk => exact AList.lookup_erase metadata' dmap.cache
  · rw [Function.update_of_ne heq]
    cases dmap.cache.lookup metadata with
    | none => rfl
    | some chunk => exact AList.lookup_erase_ne heq

/-- When no key points to the chunk, the map is right without it. -/
theorem Keeps.deleteChunk (h : dmap.Keeps s) (metadata : Metadata)
    (hne : ∀ (key : Key) keyMetadata, dmap.keys.find key = some keyMetadata →
      keyMetadata.metadata ≠ metadata) :
    (dmap.deleteChunk metadata).1.Keeps (s.deleteChunk metadata) := by
  constructor
  · intro metadata'
    rw [lookup_deleteChunk, funext h.chunks]
    rfl
  · rw [deleteChunk_values]
    exact h.values
  · intro key keyMetadata hkey
    rw [deleteChunk_keys] at hkey
    exact ⟨h.present key keyMetadata hkey, hne key keyMetadata hkey⟩
  · intro key hkey keyMetadata hmem
    rw [deleteChunk_keys] at hkey
    exact h.absent key hkey keyMetadata hmem.1

theorem Keeps.insertKey (h : dmap.Keeps s) (key : Key) (keyMetadata : CachedKey)
    (hallowed : (dmap.keys.find key).isSome ∨
      (dmap.findChunkById keyMetadata.metadata).isSome) :
    (dmap.insertKey key keyMetadata).1.Keeps (s.insertKey key.ident keyMetadata) := by
  have hfind : ∀ key', (dmap.insertKey key keyMetadata).1.keys.find key' =
      if key'.ident = key.ident ∧ dmap.keys.find key = none then some keyMetadata
      else dmap.keys.find key' := KeyMap.find_insertNew dmap.keys key (v := keyMetadata)
  refine ⟨h.chunks, h.values, fun key' keyMetadata' hkey => ?_, fun key' hkey keyMetadata' => ?_⟩
  · rw [hfind] at hkey
    split_ifs at hkey with hnew
    · obtain rfl := Option.some.inj hkey
      obtain ⟨hident, hnone⟩ := hnew
      have hcached := hallowed.resolve_left (by rw [hnone]; exact Bool.false_ne_true)
      rw [findChunkById, h.chunks] at hcached
      rw [hident]
      exact Or.inr ⟨rfl, hcached, h.absent key hnone⟩
    · exact Or.inl (h.present key' keyMetadata' hkey)
  · rw [hfind] at hkey
    split_ifs at hkey with hnew
    rintro (hmem | ⟨heq, -, habsent⟩)
    · exact h.absent key' hkey keyMetadata' hmem
    · have hident : key'.ident = key.ident := congrArg Prod.fst heq
      refine hnew ⟨hident, ?_⟩
      rw [← KeyMap.find_congr dmap.keys hident, hkey]

theorem Keeps.deleteKey (h : dmap.Keeps s) (key : Key) :
    (dmap.deleteKey key).1.Keeps (s.deleteKey key.ident) := by
  rw [DegradedMap.deleteKey]
  cases hkey : dmap.keys.find key with
  | none =>
    refine ⟨h.chunks, h.values, fun key' keyMetadata' hkey' => ?_, fun key' hkey' _ hmem => ?_⟩
    · refine ⟨h.present key' keyMetadata' hkey', fun hident => ?_⟩
      have hsome := KeyMap.find_congr dmap.keys hident
      rw [hkey, hkey'] at hsome
      cases hsome
    · exact h.absent key' hkey' _ hmem.1
  | some keyMetadata =>
    refine ⟨h.chunks, h.values, fun key' keyMetadata' hkey' => ?_, fun key' hkey' _ hmem => ?_⟩
    · dsimp only at hkey'
      rw [KeyMap.find_eraseKey] at hkey'
      split_ifs at hkey' with hident
      exact ⟨h.present key' keyMetadata' hkey', hident⟩
    · dsimp only at hkey'
      rw [KeyMap.find_eraseKey, if_neg hmem.2] at hkey'
      exact h.absent key' hkey' _ hmem.1

theorem Keeps.insertValue (h : dmap.Keeps s) (keyValue : Memory) (metadata : Metadata) :
    (dmap.insertValue cfg keyValue metadata).1.Keeps
      (s.insertValue (KeyValue.key cfg keyValue 0).ident keyValue) := by
  refine ⟨h.chunks, fun k => ?_, h.present, h.absent⟩
  have hvalue := h.values (KeyValue.key cfg keyValue 0).ident
  by_cases hk : k = (KeyValue.key cfg keyValue 0).ident
  · subst hk
    simp only [DegradedMap.insertValue, DegradedStore.insertValue, Function.update_self]
    cases hfind : dmap.values.find (KeyValue.key cfg keyValue 0) with
    | some old =>
      have hlookup : dmap.values.lookup _ = some old := hfind
      rw [KeyMap.insertNew_of_some hfind, ← hvalue, hlookup, Option.getD_some]
    | none =>
      have hlookup : dmap.values.lookup _ = none := hfind
      rw [KeyMap.insertNew_of_none hfind, ← hvalue, hlookup]
      exact AList.lookup_insert dmap.values
  · simp only [DegradedMap.insertValue, DegradedStore.insertValue, Function.update_of_ne hk]
    rw [← h.values k]
    cases hfind : dmap.values.find (KeyValue.key cfg keyValue 0) with
    | some old => rw [KeyMap.insertNew_of_some hfind]
    | none =>
      rw [KeyMap.insertNew_of_none hfind]
      exact AList.lookup_insert_ne hk

theorem Keeps.deleteValue (h : dmap.Keeps s) {key : Key} {metadata : Metadata}
    {dmap' : DegradedMap} (hdelete : dmap.deleteValue key metadata = some dmap') :
    dmap'.Keeps (s.deleteValue key.ident) := by
  rw [DegradedMap.deleteValue] at hdelete
  split_ifs at hdelete with hnone hentry
  · obtain rfl := Option.some.inj hdelete
    refine ⟨h.chunks, fun k => ?_, h.present, h.absent⟩
    by_cases hk : k = key.ident
    · subst hk
      have hlookup : dmap.values.lookup key.ident = none := Option.isNone_iff_eq_none.mp hnone
      exact hlookup.trans (s.values_deleteValue_self key.ident).symm
    · exact (h.values k).trans (s.values_deleteValue_of_ne hk).symm
  · obtain rfl := Option.some.inj hdelete
    refine ⟨h.chunks, fun k => ?_, h.present, h.absent⟩
    by_cases hk : k = key.ident
    · subst hk
      have hlookup : (dmap.values.eraseKey key).lookup key.ident = none :=
        AList.lookup_erase key.ident dmap.values
      exact hlookup.trans (s.values_deleteValue_self key.ident).symm
    · have hother : (dmap.values.eraseKey key).lookup k = s.values k :=
        (AList.lookup_erase_ne hk).trans (h.values k)
      exact hother.trans (s.values_deleteValue_of_ne hk).symm

/-- An operation that is allowed keeps the map and the store in agreement. -/
theorem Keeps.apply (h : dmap.Keeps s) {op : DegradedOp} (hallowed : dmap.Allows op)
    {dmap' : DegradedMap} (happly : dmap.apply cfg op = some dmap') :
    dmap'.Keeps (s.apply cfg op) := by
  cases op with
  | insertChunk metadata chunk isParity =>
    obtain rfl := Option.some.inj happly
    exact h.insertChunk metadata chunk isParity
  | deleteChunk metadata =>
    obtain rfl := Option.some.inj happly
    exact h.deleteChunk metadata hallowed
  | insertKey key keyMetadata =>
    obtain rfl := Option.some.inj happly
    exact h.insertKey key keyMetadata hallowed
  | deleteKey key =>
    obtain rfl := Option.some.inj happly
    exact h.deleteKey key
  | insertValue keyValue metadata =>
    obtain rfl := Option.some.inj happly
    exact h.insertValue keyValue metadata
  | deleteValue key metadata => exact h.deleteValue happly

/-- An operation that is not allowed leaves a key that points to no chunk. -/
theorem exists_not_answers {op : DegradedOp} (hnot : ¬ dmap.Allows op) (s' : DegradedStore) :
    ∃ dmap', dmap.apply cfg op = some dmap' ∧ ¬ dmap'.Answers s' := by
  cases op with
  | deleteChunk metadata =>
    refine ⟨_, rfl, fun hanswers => hnot fun key keyMetadata hkey heq => ?_⟩
    have hcached := hanswers.cached key keyMetadata (by rw [deleteChunk_keys, hkey])
    rw [findChunkById, lookup_deleteChunk, heq, Function.update_self] at hcached
    cases hcached
  | insertKey key keyMetadata =>
    refine ⟨_, rfl, fun hanswers => hnot ?_⟩
    by_contra hneither
    obtain ⟨hkey, hchunk⟩ := not_or.mp hneither
    have hnone : dmap.keys.find key = none := by simpa using hkey
    refine hchunk (hanswers.cached key keyMetadata ?_)
    exact (KeyMap.find_insertNew dmap.keys key key keyMetadata).trans (if_pos ⟨rfl, hnone⟩)
  | insertChunk => exact absurd trivial hnot
  | deleteKey => exact absurd trivial hnot
  | insertValue => exact absurd trivial hnot
  | deleteValue => exact absurd trivial hnot

/-- In every state that a run reaches lookups find what they are to find and no key points to a
chunk that is not there, if and only if chunks are deleted after their keys, and keys inserted after
their chunks. -/
theorem answers_iff_allows (ops : List DegradedOp) :
    (∀ n ≤ ops.length, ∀ dmap, after cfg (ops.take n) = some dmap →
        dmap.Answers (DegradedStore.after cfg (ops.take n))) ↔
      ∀ n op dmap, ops[n]? = some op → after cfg (ops.take n) = some dmap → dmap.Allows op := by
  have hstore : ∀ past op, DegradedStore.after cfg (past ++ [op]) =
      (DegradedStore.after cfg past).apply cfg op := fun past op => run_concat past op
  let kept : List DegradedOp → DegradedMap → Prop :=
    fun past dmap => dmap.Keeps (DegradedStore.after cfg past)
  have hempty : kept [] .empty := keeps_empty
  refine tryRun_reached_iff_allowed hempty (fun past dmap h => Keeps.answers h) ?_ ?_ ops
  · intro past dmap op dmap' _ h hallowed happly
    have hnext := Keeps.apply h hallowed happly
    rwa [← hstore] at hnext
  · intro past dmap op _ hnot
    exact exists_not_answers hnot _

/-- An object of a chunk, and a later one of the same key. -/
def sealedObject : Object .smallest := .plain [122] [118] (by decide) (by decide)

def laterObject : Object .smallest := .plain [122] [119] (by decide) (by decide)

/-- A chunk with an object is deleted, and then the key is inserted again. -/
def reinsertedKey : List DegradedOp :=
  [.insertChunk ⟨0, 0, 0⟩ (Memory.place 0 sealedObject.bytes) false, .deleteChunk ⟨0, 0, 0⟩,
    .insertValue (Memory.place 0 laterObject.bytes) ⟨0, 0, 0⟩]

/-- The lookup finds nothing, since the entry of the key points to the chunk that is gone. -/
theorem not_answers_reinsertedKey :
    (after .smallest reinsertedKey).map (fun dmap =>
        ((dmap.keys.find (.plain [122])).map CachedKey.metadata,
          (dmap.values.find (.plain [122])).isSome,
          (dmap.findValueByKey (.plain [122])).1.isSome)) = some (some ⟨0, 0, 0⟩, true, false) ∧
      ¬ ∀ n ≤ reinsertedKey.length, ∀ dmap, after .smallest (reinsertedKey.take n) = some dmap →
        dmap.Answers (DegradedStore.after .smallest (reinsertedKey.take n)) := by
  refine ⟨by decide +kernel, fun hall => ?_⟩
  have hlost : (after .smallest reinsertedKey).map (fun dmap =>
      (dmap.findValueByKey (.plain [122])).1.isNone) = some true := by decide +kernel
  have hstored : ((DegradedStore.after .smallest reinsertedKey).values
      (Key.plain [122]).ident).isSome := by decide +kernel
  obtain ⟨dmap, hdmap, hnone⟩ := Option.map_eq_some_iff.mp hlost
  have hfinds := (hall 3 le_rfl dmap hdmap).finds (.plain [122])
  rw [Option.isNone_iff_eq_none.mp hnone] at hfinds
  have hnot : (DegradedStore.after .smallest reinsertedKey).values (Key.plain [122]).ident = none :=
    hfinds.2
  rw [hnot] at hstored
  cases hstored

end DegradedMap

end MemEC.Server
