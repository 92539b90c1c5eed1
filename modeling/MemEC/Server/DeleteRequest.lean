import MemEC.Common.DeleteObject
import MemEC.Server.ObjectServer

/-!
# Deleting an object at its data server

The entry of the object is taken out of the key map, and its bytes in the chunk
are cleared, with the difference as the delta for the parity servers.

The offset and the length of the object are put into a `keyMetadata`, but the
code that goes by them stands behind the declaration of another one, which is all
zero. So what is cleared is the object at the start of the chunk. What the chunk
buffer does about the space that gets free is left out.
-/

namespace MemEC.Common.ChunkUtil

open MemEC.Lib

variable {cfg : GlobalConfig} {m : Memory} {base : ℕ} {delta : Option Memory}
  {before after : List (Object cfg)} {o f : Object cfg}

/-- With or without a delta buffer, nothing behind the bytes that a deletion covers is changed. -/
theorem deleteObject_behind {i : ℕ} (h : m.Holds base f.bytes)
    (hi : base + (4 + deletedLength f) ≤ i) : (deleteObject cfg m base delta).1 i = m i := by
  cases delta with
  | none => rw [deleteObject_none_apply h, if_neg (by omega)]
  | some delta => exact deleteObject_some_out h (by omega)

/-- Behind the header, what a deletion covers is zero. -/
theorem deleteObject_zero {j : ℕ} (h : m.Holds base f.bytes) (hj : 4 ≤ j)
    (hlt : j < deletedLength f) : (deleteObject cfg m base delta).1 (base + j) = 0 := by
  cases delta with
  | none => rw [deleteObject_none_apply h, if_pos (by omega)]
  | some delta =>
    rw [deleteObject_some_in h hlt]
    exact tombstone_behind hj

/-- A mark of a deleted split changes when it is deleted again, unless it takes a whole chunk. -/
theorem size_of_deleted_split (h : m.Holds base f.bytes) (hkey : f.key = [])
    (hlarge : f.isLarge = true)
    (hframe : ∀ i < base + f.size, (deleteObject cfg m base delta).1 i = m i) :
    f.size = cfg.chunkSize := by
  have hc := cfg.le_chunkSize
  have hvalue := f.isLarge_iff.mp hlarge
  have hsize := f.size_eq
  have hpayload := f.payload_of_large hlarge
  rw [if_pos hlarge] at hsize
  rw [hkey, List.length_nil] at hvalue hsize hpayload
  have hlen : deletedLength f = f.valueSize := by
    rw [deletedLength, hkey, List.length_nil, Nat.zero_add]
  have hoffset : m.Holds (base + 4) (beBytes 3 f.splitOffset) := by
    have hbytes := h
    rw [Object.bytes, Object.keyBytes, hkey, hlarge, if_pos rfl, List.nil_append,
      Memory.holds_append, Memory.holds_append, Object.length_header] at hbytes
    exact hbytes.1.2
  have hzero : m.read (base + 4) 3 = (0 : Memory).read (base + 4) 3 := by
    refine Memory.read_congr fun i h4 hi => ?_
    obtain ⟨j, rfl⟩ := Nat.exists_eq_add_of_le (show base ≤ i by omega)
    rw [← hframe _ (by omega), deleteObject_zero h (by omega) (by omega)]
    rfl
  have hsplit : f.splitOffset = 0 := by
    have hzeros : (0 : Memory).read (base + 4) 3 = [0, 0, 0] := rfl
    rw [← hoffset.readBe f.splitOffset_lt_two_pow, Memory.readBe, hzero, hzeros]
    decide
  rw [hsplit] at hpayload
  omega

/-- A deletion at the start of a chunk that clears an object and changes nothing in front of it is
the deletion of the first one. -/
theorem eq_nil_of_deleted (hholds : m.Holds base (layout (before ++ o :: after)))
    (hfits : (layout (before ++ o :: after)).length ≤ cfg.chunkSize)
    (hvisible : ∀ x ∈ before, x.Visible) (hlive : o.Live)
    (hgone : (deleteObject cfg m base delta).1 (base + (layout before).length) = 0)
    (hframe : ∀ i < base + (layout before).length, (deleteObject cfg m base delta).1 i = m i) :
    before = [] := by
  cases before with
  | nil => rfl
  | cons f rest =>
    exfalso
    have hlength := @Holding.length_layout cfg (f :: rest) after o
    rw [length_layout_cons] at hgone hframe hlength
    rw [layout_append, Memory.holds_append, layout_cons, layout_cons, Memory.holds_append,
      Memory.holds_append, List.length_append] at hholds
    obtain ⟨⟨hf, -⟩, ho, -⟩ := hholds
    have hfirst := holds_keySize hf
    have hkey := holds_keySize ho
    have hpos := List.length_pos_iff.mpr hlive
    have hsize : 4 < f.size := (hvisible f List.mem_cons_self).lt_size
    have hosize : 4 < o.size := Object.Visible.lt_size (.inl hlive)
    by_cases hnil : f.key = []
    · have hvalue : f.valueSize ≠ 0 :=
        (hvisible f List.mem_cons_self).resolve_left (not_not.mpr hnil)
      cases hlarge : f.isLarge with
      | true =>
        have hwhole := size_of_deleted_split hf hnil hlarge fun i hi => hframe i (by omega)
        omega
      | false =>
        have hplain := f.size_eq
        rw [hlarge, if_neg Bool.false_ne_true, f.payload_of_plain hlarge] at hplain
        rw [deleteObject_behind hf (by unfold deletedLength; omega)] at hgone
        change (m (base + (f.size + (layout rest).length))).toNat = _ at hkey
        rw [hgone] at hkey
        exact absurd hkey (by simp; omega)
    · have hfpos := List.length_pos_iff.mpr hnil
      have hhead := @deleteObject_head cfg m base delta
        (by rw [deleteObject_length_eq hf]; unfold deletedLength; omega)
      rw [hframe base (by omega)] at hhead
      rw [hhead] at hfirst
      exact absurd hfirst (by simp; omega)

end MemEC.Common.ChunkUtil

namespace MemEC.Server

open MemEC.Lib MemEC.Common CuckooHash

variable {cfg : GlobalConfig} {shape : IndexShape}

/-- A DELETE request that the parser accepts. -/
structure DeleteRequest where
  input : Input
  start : ℕ
  header : KeyHeader
  parsed : parseKeyHeader input start = some header

def DeleteRequest.key (req : DeleteRequest) : List UInt8 :=
  req.input.bytes.read req.header.key req.header.keySize

/-- The part of a `KeyMetadata` that `handleDeleteRequest` looks at, as the constructor leaves
it. -/
structure ObjectOffset where
  offset : ℕ := 0
  length : ℕ := 0

theorem Map.has_of_deleteKey {m : Memory} {keys : CuckooHash shape.toTableShape} {key : List UInt8}
    {ptr : ℕ} (h : (Map.deleteKey cfg m keys key).1.buckets.Has ptr) : keys.buckets.Has ptr := by
  unfold Map.deleteKey at h
  split_ifs at h
  · rcases del_cases cfg m keys (.plain key) with ⟨a, -, hdel⟩ | ⟨-, hdel⟩
    · rw [hdel] at h
      rcases h.of_put with hhas | rfl
      · exact hhas
      · exact absurd rfl h.1
    · rwa [hdel] at h
  · exact h

namespace ObjectServer

variable (s : ObjectServer cfg shape)

/-- `Map::deleteKey`. -/
def deleteKey (key : List UInt8) : ObjectServer cfg shape :=
  { s with
    keys := (Map.deleteKey cfg s.m s.keys key).1
    in_chunk := fun ptr h => s.in_chunk ptr (Map.has_of_deleteKey h) }

/-- What `handleDeleteRequest` does with the chunk of an object, given what is in the buffer for
the delta. -/
def deleteFromChunk (buffer : Memory) (key : List UInt8) (chunk : ℕ) :
    ObjectServer cfg shape × ObjectServerEvent :=
  -- The `keyMetadata` with the offset of the object is not visible here.
  let keyMetadata : ObjectOffset := {}
  let delta := if s.parityChunkCount = 0 then none else some buffer
  let deleted := ChunkUtil.deleteObject cfg s.m (chunk + 8 + keyMetadata.offset) delta
  ((s.deleteKey key).setMemory deleted.1,
    match deleted.2.1 with
    | none => .resDelete true
    | some delta => .sendModifyChunkRequest
        { key := .plain key
          chunk
          offset := keyMetadata.offset
          delta
          deltaSize := deleted.2.2
          valueUpdateOffset := 0
          isSealed := !s.buffered chunk
          isUpdate := false })

/-- `handleDeleteRequest`. A request for a remapped object is not answered. -/
def handleDeleteRequest (buffer : Memory) (req : DeleteRequest) :
    ObjectServer cfg shape × Option ObjectServerEvent :=
  match Map.findObject cfg s.m s.keys req.key with
  | some ptr =>
    let (s', event) := s.deleteFromChunk buffer req.key (s.getChunk ptr).1
    (s', some event)
  | none =>
    if (s.remapped.find (.plain req.key)).isSome ||
        (if h : 3 < req.key.length then (s.remapped.find (splitKey req.key h.le)).isSome
          else false) then (s, none)
    else (s, some (.resDelete false))

/-- Where an object behind others stands. -/
def address (chunk : ℕ) (before : List (Object cfg)) : ℕ := chunk + 8 + (layout before).length

/-- A chunk with its objects, one of which is in the key map. The entries of the key map point to
objects, and these do not overlap. -/
structure Stores (s : ObjectServer cfg shape) (chunk : ℕ) (before : List (Object cfg))
    (o : Object cfg) (after : List (Object cfg)) : Prop where
  chunk_le : s.startAddress ≤ chunk
  chunk_mod : (chunk - s.startAddress) % (8 + cfg.chunkSize) = 0
  holds : s.m.Holds (chunk + 8) (layout (before ++ o :: after))
  fits : (layout (before ++ o :: after)).length ≤ cfg.chunkSize
  visible : ∀ x ∈ before ++ o :: after, x.Visible
  live : o.Live
  has : s.keys.buckets.Has (address chunk before)
  apart : ∀ q, s.keys.buckets.Has q → q ≠ address chunk before →
    q + 4 + Key.extent (KeyValue.key cfg s.m q).size (KeyValue.key cfg s.m q).isLarge ≤
      address chunk before ∨ address chunk before + o.size ≤ q

/-- What the deletion of an object should do: its entry alone leaves the key map, its bytes alone
are changed, the other objects are found with what they held, and the parity servers get the
change that was made. -/
structure Deleted (s : ObjectServer cfg shape) (chunk : ℕ) (before : List (Object cfg))
    (o : Object cfg) (after : List (Object cfg))
    (result : ObjectServer cfg shape × Option ObjectServerEvent) : Prop where
  keys : ∀ q, result.1.keys.buckets.Has q ↔ s.keys.buckets.Has q ∧ q ≠ address chunk before
  gone : result.1.m (address chunk before) = 0
  frame : ∀ i, i < address chunk before ∨ address chunk before + o.size ≤ i →
    result.1.m i = s.m i
  others : ∀ p ∈ livePlaced cfg (chunk + 8) before ++
      livePlaced cfg (address chunk before + o.size) after,
    result.1.m.Holds p.1 p.2.bytes ∧ (s.keys.find cfg s.m p.2.mapKey = some p.1 →
      result.1.keys.find cfg result.1.m p.2.mapKey = some p.1)
  sent : s.parityChunkCount ≠ 0 → ∃ request,
    result.2 = some (.sendModifyChunkRequest request) ∧ request.Describes s.m result.1.m

/-- The object is the first one of its chunk, the key map finds it under the key of the request, and
has it in one slot. -/
def Deletable (s : ObjectServer cfg shape) (chunk : ℕ) (before : List (Object cfg))
    (key : List UInt8) : Prop :=
  before = [] ∧ Map.findObject cfg s.m s.keys key = some (address chunk before) ∧
    s.keys.buckets.Single (address chunk before)

variable {s} {buffer : Memory} {req : DeleteRequest} {chunk ptr : ℕ}
  {before after : List (Object cfg)} {o : Object cfg}

theorem handleDeleteRequest_of_some (h : Map.findObject cfg s.m s.keys req.key = some ptr) :
    s.handleDeleteRequest buffer req =
      ((s.deleteFromChunk buffer req.key (s.getChunk ptr).1).1,
        some (s.deleteFromChunk buffer req.key (s.getChunk ptr).1).2) := by
  rw [handleDeleteRequest, h]

/-- A key that is not found changes nothing. -/
theorem handleDeleteRequest_of_none (h : Map.findObject cfg s.m s.keys req.key = none) :
    (s.handleDeleteRequest buffer req).1 = s := by
  unfold handleDeleteRequest
  rw [h]
  exact (apply_ite Prod.fst _ _ _).trans (ite_self s)

/-- The slot of the entry that was found is free then. -/
theorem deleteKey_buckets {key : List UInt8} (h : Map.findObject cfg s.m s.keys key = some ptr) :
    ∃ a, s.keys.buckets a = ptr ∧ (s.deleteKey key).keys.buckets = s.keys.buckets.put a 0 := by
  have hfind : s.keys.find cfg s.m (.plain key) = some ptr := h
  have hkeys : (s.deleteKey key).keys = s.keys.del cfg s.m (.plain key) := by
    simp only [deleteKey, Map.deleteKey, hfind, Option.isSome_some, if_true]
  rcases del_cases cfg s.m s.keys (.plain key) with ⟨a, ha, hdel⟩ | ⟨hnone, -⟩
  · rw [hfind] at ha
    exact ⟨a, (Option.some.inj ha).symm, by rw [hkeys, hdel]⟩
  · rw [hfind] at hnone
    cases hnone

/-- The chunk is cleared from its start. -/
theorem deleteFromChunk_m (s : ObjectServer cfg shape) (buffer : Memory) (key : List UInt8)
    (chunk : ℕ) : ∃ delta, (s.deleteFromChunk buffer key chunk).1.m =
      (ChunkUtil.deleteObject cfg s.m (chunk + 8) delta).1 := ⟨_, rfl⟩

theorem deleteFromChunk_sent (buffer : Memory) (key : List UInt8) (chunk : ℕ)
    (h : s.parityChunkCount ≠ 0) : ∃ request,
    (s.deleteFromChunk buffer key chunk).2 = .sendModifyChunkRequest request ∧
      request.Describes s.m (s.deleteFromChunk buffer key chunk).1.m := by
  unfold deleteFromChunk
  rw [if_neg h]
  exact ⟨_, rfl, rfl⟩

namespace Stores

variable (h : s.Stores chunk before o after)
include h

theorem holds_object : s.m.Holds (address chunk before) o.bytes := by
  have hholds := h.holds
  rw [layout_append, layout_cons, Memory.holds_append, Memory.holds_append] at hholds
  exact hholds.2.1

theorem getChunk_eq : (s.getChunk (address chunk before)).1 = chunk := by
  have hle := h.chunk_le
  have hfits := h.fits
  have hc := cfg.chunkSize_le
  have hsize := Object.Visible.lt_size (.inl h.live : o.Visible)
  rw [ChunkUtil.Holding.length_layout] at hfits
  have hmod : (address chunk before - s.startAddress) % (8 + cfg.chunkSize) =
      8 + (layout before).length := by
    have hsub : address chunk before - s.startAddress =
        chunk - s.startAddress + (8 + (layout before).length) := by
      unfold address
      omega
    rw [hsub, Nat.add_mod, h.chunk_mod, Nat.zero_add, Nat.mod_mod, Nat.mod_eq_of_lt (by omega)]
  rw [getChunk, hmod, u32_eq (by omega)]
  unfold address
  omega

/-- The entries other than that of the object keep their keys when its bytes are changed. -/
theorem key_eq {m' : Memory} {q : ℕ}
    (hframe : ∀ i, i < address chunk before ∨ address chunk before + o.size ≤ i → m' i = s.m i)
    (hq : s.keys.buckets.Has q) (hne : q ≠ address chunk before) :
    KeyValue.key cfg m' q = KeyValue.key cfg s.m q := by
  refine KeyValue.key_congr fun i h1 h2 => hframe i ?_
  rcases h.apart q hq hne with hle | hle
  · omega
  · omega

/-- What is found under the key of a request is stored whole. -/
theorem size_eq {key : List UInt8}
    (hfind : Map.findObject cfg s.m s.keys key = some (address chunk before)) :
    o.size = 4 + ChunkUtil.deletedLength o := by
  obtain ⟨-, hequal⟩ := find_eq_some hfind
  rw [isEqual_index, Key.equal_iff] at hequal
  have hlarge : o.isLarge = false := by
    have hown := hequal.2.1
    rw [KeyValue.key, Object.deserialize_eq h.holds_object] at hown
    exact hown
  rw [o.size_eq, hlarge, if_neg Bool.false_ne_true, o.payload_of_plain hlarge]
  unfold ChunkUtil.deletedLength
  omega

/-- The object that is first in its chunk is deleted. -/
theorem deleted (hdel : s.Deletable chunk before req.key) :
    s.Deleted chunk before o after (s.handleDeleteRequest buffer req) := by
  obtain ⟨rfl, hfind, hsingle⟩ := hdel
  obtain ⟨a, ha, hbuckets⟩ := deleteKey_buckets hfind
  obtain ⟨delta, hm⟩ := s.deleteFromChunk_m buffer req.key chunk
  have hholds : s.m.Holds (chunk + 8) o.bytes := h.holds_object
  have hsize := h.size_eq hfind
  have hpos := List.length_pos_iff.mpr h.live
  have hframe : ∀ i, i < address chunk ([] : List (Object cfg)) ∨
      address chunk ([] : List (Object cfg)) + o.size ≤ i →
      (s.deleteFromChunk buffer req.key chunk).1.m i = s.m i := by
    rintro i (hi | hi)
    · rw [hm]
      exact ChunkUtil.deleteObject_before delta hi
    · rw [hm]
      exact ChunkUtil.deleteObject_behind hholds (by rwa [hsize] at hi)
  rw [handleDeleteRequest_of_some hfind, h.getChunk_eq]
  constructor
  · change ∀ q, (s.deleteKey req.key).keys.buckets.Has q ↔ _
    rw [hbuckets, ← ha]
    exact (Slots.has_clear_iff_single (ha ▸ h.has.1)).mpr (ha ▸ hsingle)
  · change (s.deleteFromChunk buffer req.key chunk).1.m (chunk + 8) = 0
    rw [hm]
    refine ChunkUtil.deleteObject_head delta ?_
    rw [ChunkUtil.deleteObject_length_eq hholds]
    unfold ChunkUtil.deletedLength
    omega
  · exact hframe
  · intro p hp
    have hmem : p ∈ placed (address chunk ([] : List (Object cfg)) + o.size) after :=
      List.mem_of_mem_filter hp
    have hbounds := (mem_placed_bounds hmem).1
    have hstored : s.m.Holds p.1 p.2.bytes :=
      holds_placed h.holds (List.mem_cons_of_mem _ hmem)
    refine ⟨hstored.congr fun i hi _ => hframe i (.inr (by omega)), find_of_kept ?_ ?_⟩
    · intro b hb
      change (s.deleteKey req.key).keys.buckets b ≠ 0 at hb
      change (s.deleteKey req.key).keys.buckets b = s.keys.buckets b ∧ _
      rw [hbuckets, Slots.put_apply] at hb ⊢
      split_ifs at hb ⊢ with hba
      · exact absurd rfl hb
      · have hne : s.keys.buckets b ≠ address chunk [] := fun hptr => hba (hsingle b a hptr ha)
        refine ⟨rfl, ?_⟩
        rw [isEqual_index, isEqual_index]
        exact congrArg (Key.equal · p.2.mapKey) (h.key_eq hframe ⟨hb, b, rfl⟩ hne)
    · intro b hb
      change (s.deleteKey req.key).keys.buckets b = p.1
      have hsize4 := Object.Visible.lt_size (.inl h.live : o.Visible)
      have hba : b ≠ a := by
        rintro rfl
        rw [ha] at hb
        omega
      rw [hbuckets, Slots.put_of_ne _ _ hba, hb]
  · intro hparity
    obtain ⟨request, hrequest, hdescribes⟩ :=
      deleteFromChunk_sent buffer req.key chunk hparity
    exact ⟨request, congrArg some hrequest, hdescribes⟩

/-- A deletion that does what it should is that of the first object of the chunk. -/
theorem deletable (hdel : s.Deleted chunk before o after (s.handleDeleteRequest buffer req)) :
    s.Deletable chunk before req.key := by
  cases hfind : Map.findObject cfg s.m s.keys req.key with
  | none =>
    have hkeys := (hdel.keys (address chunk before)).mp
    rw [handleDeleteRequest_of_none hfind] at hkeys
    exact absurd rfl (hkeys h.has).2
  | some ptr =>
    obtain ⟨a, ha, hbuckets⟩ := deleteKey_buckets hfind
    have hkeys := hdel.keys
    rw [handleDeleteRequest_of_some hfind] at hkeys
    change ∀ q, (s.deleteKey req.key).keys.buckets.Has q ↔ _ at hkeys
    rw [hbuckets] at hkeys
    have hptr : ptr = address chunk before := by
      by_contra hne
      obtain ⟨hne0, b, hb⟩ := h.has
      have hba : b ≠ a := by
        rintro rfl
        exact hne (ha.symm.trans hb)
      exact ((hkeys _).mp ⟨hne0, b, (Slots.put_of_ne _ _ hba).trans hb⟩).2 rfl
    subst hptr
    obtain ⟨delta, hm⟩ := s.deleteFromChunk_m buffer req.key chunk
    have hgone := hdel.gone
    have hframe := hdel.frame
    rw [handleDeleteRequest_of_some hfind, h.getChunk_eq] at hgone hframe
    dsimp only at hgone hframe
    rw [hm] at hgone hframe
    refine ⟨ChunkUtil.eq_nil_of_deleted h.holds h.fits
      (fun x hx => h.visible x (List.mem_append_left _ hx)) h.live hgone
      fun i hi => hframe i (.inl hi), hfind, ?_⟩
    rw [← ha] at hkeys ⊢
    exact (Slots.has_clear_iff_single (ha ▸ h.has.1)).mp hkeys

end Stores

/-- An object is deleted as it should be exactly if it is the first one of its chunk, as long as
the key map has it once and finds it under its key. -/
theorem deleted_iff (h : s.Stores chunk before o after) (buffer : Memory) (req : DeleteRequest) :
    s.Deleted chunk before o after (s.handleDeleteRequest buffer req) ↔
      s.Deletable chunk before req.key :=
  ⟨h.deletable, h.deleted⟩

/-- Two objects of six bytes. -/
def objectA : Object .smallest := .plain [144] [1] (by decide) (by decide)

def objectB : Object .smallest := .plain [145] [2] (by decide) (by decide)

/-- A chunk with both of them, and the key map. -/
def indexedPair : ObjectServer .smallest .default where
  m := Memory.place 40 (layout [objectA, objectB])
  keys := { CuckooHash.init IndexShape.default.toTableShape with
    buckets := fun a =>
      if a.1 = IndexShape.default.bucket₁ (Key.plain [144]).hashValue ∧ a.2.val = 0 then 40
      else if a.1 = IndexShape.default.bucket₁ (Key.plain [145]).hashValue ∧ a.2.val = 1 then 46
      else 0 }
  startAddress := 32
  buffered := fun _ => true
  parityChunkCount := 1
  remapped := ∅
  in_chunk := by
    rintro ptr ⟨hne, a, rfl⟩
    dsimp only at hne ⊢
    split_ifs at hne ⊢
    · decide
    · decide
    · exact absurd rfl hne
  key_remapped := key_of_find_empty

theorem eq_of_has_indexedPair {q : ℕ} (h : indexedPair.keys.buckets.Has q) : q = 40 ∨ q = 46 := by
  obtain ⟨hne, a, rfl⟩ := h
  unfold indexedPair at hne ⊢
  dsimp only at hne ⊢
  split_ifs at hne ⊢
  · exact .inl rfl
  · exact .inr rfl
  · exact absurd rfl hne

theorem stores_objectA : indexedPair.Stores 32 [] objectA [objectB] where
  chunk_le := by decide
  chunk_mod := by decide
  holds := Memory.holds_write 0 40 _
  fits := by decide
  visible := by decide
  live := by decide
  has := ⟨by decide, (IndexShape.default.bucket₁ (Key.plain [144]).hashValue, 0), rfl⟩
  apart := by
    intro q hq hne
    rcases eq_of_has_indexedPair hq with rfl | rfl
    · exact absurd rfl hne
    · exact .inr (by decide)

theorem stores_objectB : indexedPair.Stores 32 [objectA] objectB [] where
  chunk_le := by decide
  chunk_mod := by decide
  holds := Memory.holds_write 0 40 _
  fits := by decide
  visible := by decide
  live := by decide
  has := ⟨by decide, (IndexShape.default.bucket₁ (Key.plain [145]).hashValue, 1),
    by decide +kernel⟩
  apart := by
    intro q hq hne
    rcases eq_of_has_indexedPair hq with rfl | rfl
    · exact .inl (by decide +kernel)
    · exact absurd (by decide) hne

/-- A request to delete one of them. -/
def deleteA : DeleteRequest where
  input := ⟨Memory.place 0 [1, 144], 2⟩
  start := 0
  header := ⟨1, 1⟩
  parsed := by decide +kernel

def deleteB : DeleteRequest where
  input := ⟨Memory.place 0 [1, 145], 2⟩
  start := 0
  header := ⟨1, 1⟩
  parsed := by decide +kernel

theorem deleted_objectA :
    indexedPair.Deleted 32 [] objectA [objectB] (indexedPair.handleDeleteRequest 0 deleteA) := by
  refine (deleted_iff stores_objectA 0 deleteA).mpr ⟨rfl, by decide +kernel, fun a b ha hb => ?_⟩
  have hslot : ∀ c, indexedPair.keys.buckets c = 40 →
      c = (IndexShape.default.bucket₁ (Key.plain [144]).hashValue, 0) := by
    intro c hc
    unfold indexedPair at hc
    dsimp only at hc
    split_ifs at hc with hfirst
    · exact Prod.ext hfirst.1 (Fin.ext hfirst.2)
    · exact absurd hc (by decide)
  rw [hslot a ha, hslot b hb]

/-- The deletion of the second one clears the first one. -/
theorem not_deleted_objectB : ¬∀ (cfg : GlobalConfig) (shape : IndexShape)
    (s : ObjectServer cfg shape) (chunk : ℕ) (before : List (Object cfg)) (o : Object cfg)
    (after : List (Object cfg)) (buffer : Memory) (req : DeleteRequest),
    s.Stores chunk before o after → req.key = o.key →
      s.Deleted chunk before o after (s.handleDeleteRequest buffer req) := by
  intro h
  have hdel := h _ _ indexedPair 32 [objectA] objectB [] 0 deleteB stores_objectB
    (by decide +kernel)
  exact absurd (stores_objectB.deletable hdel).1 (by decide)

end ObjectServer

end MemEC.Server
