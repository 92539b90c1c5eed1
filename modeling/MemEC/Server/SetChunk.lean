import MemEC.Common.ChunkTransfer
import MemEC.Server.ChunkIndex

/-!
# Receiving a sealed data chunk

`ServerWorker::handleSetChunkRequest` replaces the content of a data chunk. It
deletes the keys of the old content, loads the new content, and inserts its
keys. Both loops go from object to object with the size of the whole value,
also at a split, and delete and insert plain keys only. The second loop stops
behind as many bytes as the message carries.

`Map::insertKey` takes the address of the object from `keyMetadata.obj`, which
the function never sets. What it happens to hold is `obj` here.
-/

namespace MemEC.Server

open MemEC.Lib MemEC.Common Slots CuckooHash ChunkUtil

variable {cfg : GlobalConfig} {shape : IndexShape}

/-- `valueSize` as `KeyValue::_deserialize` returns it. -/
def plainValueSize (m : Memory) (ptr : ℕ) : ℕ := m.readBe (ptr + 1) 3

/-- The key as `KeyValue::_deserialize` returns it. -/
def plainKey (m : Memory) (ptr : ℕ) : List UInt8 := m.read (ptr + 4) (m ptr).toNat

/-- The addresses that the loops of `handleSetChunkRequest` go over, for a chunk whose data is at
`data`. The first number bounds the rounds. -/
def wholeObjects (m : Memory) (data chunkSize : ℕ) : ℕ → ℕ → List ℕ
  | 0, _ => []
  | fuel + 1, offset =>
    if offset < chunkSize then
      let objSize := u32 (4 + (m (data + offset)).toNat + plainValueSize m (data + offset))
      (data + offset) :: wholeObjects m data chunkSize fuel (u32 (offset + objSize))
    else []

/-- The memory after `ChunkUtil::load` into the chunk with its data at `data`. -/
def loadAt (cfg : GlobalConfig) (m : Memory) (data : ℕ) (chunkData : Trimmed) : Memory := fun i =>
  if i < data then m i
  else load cfg (fun j => m (data + j)) chunkData.offset chunkData.data chunkData.size (i - data)

/-- The memory after `ChunkUtil::clear` of the chunk with its data at `data`. -/
def clearAt (cfg : GlobalConfig) (m : Memory) (data : ℕ) : Memory := m.fill data cfg.chunkSize 0

namespace KeyMapState

open Map

/-- A round of the first loop. -/
def deleteAt (cfg : GlobalConfig) (rand : ℕ → ℕ) (s : KeyMapState shape) (ptr : ℕ) :
    Option (KeyMapState shape) := step cfg rand s (.deleteKey (plainKey s.m ptr))

/-- A round of the second loop. -/
def insertAt (cfg : GlobalConfig) (rand : ℕ → ℕ) (obj : ℕ) (s : KeyMapState shape) (ptr : ℕ) :
    Option (KeyMapState shape) := insertKey cfg rand s (.plain (plainKey s.m ptr)) obj

/-- The chunk at `data`: the one that `findChunkById` has `found`, or a new one. -/
def prepareChunk (cfg : GlobalConfig) (rand : ℕ → ℕ) (s : KeyMapState shape) (found : Bool)
    (data : ℕ) : Option (KeyMapState shape) :=
  if found then some s else step cfg rand { s with m := clearAt cfg s.m data } (.setChunk data)

/-- `handleSetChunkRequest` for a sealed data chunk. -/
def handleSetChunkRequest (cfg : GlobalConfig) (rand : ℕ → ℕ) (s : KeyMapState shape)
    (found : Bool) (data obj : ℕ) (chunkData : Trimmed) : Option (KeyMapState shape) := do
  let s ← prepareChunk cfg rand s found data
  let chunkSize := dataSize cfg fun i => s.m (data + i)
  let s ← tryRun (deleteAt cfg rand) s (wholeObjects s.m data chunkSize chunkSize 0)
  let s := { s with m := loadAt cfg s.m data chunkData }
  tryRun (insertAt cfg rand obj) s (wholeObjects s.m data chunkData.size chunkData.size 0)

end KeyMapState

/-! ## The objects that the loops see -/

namespace HoldsAt

variable {m : Memory} {data : ℕ} {objs : List (Object cfg)} {p : ℕ × Object cfg}

theorem header (h : HoldsAt m data objs) (hp : p ∈ placed data objs) :
    (m p.1).toNat = p.2.key.length ∧ plainValueSize m p.1 = p.2.valueSize := by
  have hholds := h.holds hp
  rw [Object.bytes, Memory.holds_append] at hholds
  exact Object.holds_header hholds.1

theorem plainKey_eq (h : HoldsAt m data objs) (hp : p ∈ placed data objs) :
    plainKey m p.1 = p.2.key := by
  have hholds := h.holds hp
  rw [Object.bytes, List.append_assoc, Memory.holds_append, Memory.holds_append,
    Object.length_header, Object.keyBytes, Memory.holds_append] at hholds
  rw [plainKey, (h.header hp).1]
  exact hholds.2.1.1

/-- The loops go over the objects up to the first split, and stop behind it. -/
theorem wholeObjects_eq (h : HoldsAt m data objs) {off fuel : ℕ} {before rest : List (Object cfg)}
    (hsplit : ∀ p ∈ placed (data + off) (before ++ rest), p ∈ placed data objs)
    (hplain : ∀ o ∈ before, o.isLarge = false) (hrest : ∀ o ∈ rest.head?, o.isLarge = true)
    (hsize : off + (layout (before ++ rest)).length = (layout objs).length)
    (hfuel : before.length < fuel) :
    wholeObjects m data (layout objs).length fuel off = (placed (data + off) before ++
      (placed (data + off + (layout before).length) rest).take 1).map Prod.fst := by
  have hc := cfg.chunkSize_le
  have hfits := h.chunk.fits
  induction before generalizing off fuel with
  | nil =>
    obtain ⟨fuel, rfl⟩ := Nat.exists_eq_add_one_of_ne_zero (by omega : fuel ≠ 0)
    cases rest with
    | nil =>
      rw [List.append_nil, layout_nil, List.length_nil] at hsize
      rw [wholeObjects, if_neg (by omega)]
      rfl
    | cons l rest =>
      have hmem : (data + off, l) ∈ placed data objs := hsplit _ List.mem_cons_self
      obtain ⟨hkey, hvalue⟩ := h.header hmem
      have hlt := (h.visible_of_mem hmem).lt_size
      have hlarge := l.isLarge_iff.mp (hrest l rfl)
      have hk := l.length_key
      have hv := l.valueSize_lt
      rw [List.nil_append, length_layout_cons] at hsize
      have hstop : ∀ fuel offset, (layout objs).length ≤ offset →
          wholeObjects m data (layout objs).length fuel offset = [] := by
        intro fuel offset hle
        cases fuel with
        | zero => rfl
        | succ fuel => rw [wholeObjects, if_neg (by omega)]
      dsimp only at hkey hvalue hlt
      rw [wholeObjects, if_pos (by omega)]
      dsimp only
      rw [hkey, hvalue, u32_eq (by omega : 4 + l.key.length + l.valueSize < 2 ^ 32),
        u32_eq (by omega), hstop _ _ (by omega)]
      rfl
  | cons o before ih =>
    obtain ⟨fuel, rfl⟩ := Nat.exists_eq_add_one_of_ne_zero (by omega : fuel ≠ 0)
    have hmem : (data + off, o) ∈ placed data objs := hsplit _ List.mem_cons_self
    obtain ⟨hkey, hvalue⟩ := h.header hmem
    have hlt := (h.visible_of_mem hmem).lt_size
    have hk := o.length_key
    have hv := o.valueSize_lt
    have hplain' := hplain o List.mem_cons_self
    have hosize : o.size = 4 + o.key.length + o.valueSize := by
      rw [o.size_eq, hplain', o.payload_of_plain hplain']
      simp
    rw [List.cons_append, length_layout_cons] at hsize
    dsimp only at hkey hvalue hlt
    rw [wholeObjects, if_pos (by omega)]
    dsimp only
    rw [hkey, hvalue, u32_eq (by omega : 4 + o.key.length + o.valueSize < 2 ^ 32),
      u32_eq (by omega), ← hosize]
    rw [ih]
    · rw [placed, List.cons_append, List.map_cons, length_layout_cons]
      simp only [Nat.add_assoc]
    · intro p hp
      apply hsplit
      rw [List.cons_append, placed]
      rw [← Nat.add_assoc] at hp
      exact List.mem_cons_of_mem _ hp
    · exact fun x hx => hplain x (List.mem_cons_of_mem o hx)
    · omega
    · rw [List.length_cons] at hfuel
      omega

end HoldsAt

/-- The objects in front of the first split. -/
def beforeSplit (objs : List (Object cfg)) : List (Object cfg) := objs.takeWhile fun o => !o.isLarge

/-- The first split, and the objects behind it. -/
def fromSplit (objs : List (Object cfg)) : List (Object cfg) := objs.dropWhile fun o => !o.isLarge

theorem isLarge_of_mem_beforeSplit {objs : List (Object cfg)} {o : Object cfg}
    (h : o ∈ beforeSplit objs) : o.isLarge = false := by
  have hplain := List.mem_takeWhile_imp h
  rwa [Bool.not_eq_true'] at hplain

theorem isLarge_of_mem_head?_fromSplit {objs : List (Object cfg)} {o : Object cfg}
    (h : o ∈ (fromSplit objs).head?) : o.isLarge = true := by
  have hhead := List.head?_dropWhile_not (fun o : Object cfg => !o.isLarge) objs
  rw [Option.mem_def, fromSplit] at h
  rw [h] at hhead
  simpa using hhead

theorem beforeSplit_append_fromSplit (objs : List (Object cfg)) :
    beforeSplit objs ++ fromSplit objs = objs := List.takeWhile_append_dropWhile

/-- The address of the first split. -/
def splitAt (data : ℕ) (objs : List (Object cfg)) : ℕ := data + (layout (beforeSplit objs)).length

/-- The objects that the loops see. -/
def reached (data : ℕ) (objs : List (Object cfg)) : List (ℕ × Object cfg) :=
  placed data (beforeSplit objs) ++ (placed (splitAt data objs) (fromSplit objs)).take 1

theorem placed_split (data : ℕ) (objs : List (Object cfg)) : placed data objs =
    placed data (beforeSplit objs) ++ placed (splitAt data objs) (fromSplit objs) := by
  rw [splitAt, ← placed_append, beforeSplit_append_fromSplit]

theorem mem_of_mem_reached {data : ℕ} {objs : List (Object cfg)} {p : ℕ × Object cfg}
    (h : p ∈ reached data objs) : p ∈ placed data objs := by
  rw [placed_split]
  rcases List.mem_append.mp h with hp | hp
  · exact List.mem_append_left _ hp
  · exact List.mem_append_right _ (List.mem_of_mem_take hp)

theorem HoldsAt.wholeObjects_eq_reached {m : Memory} {data : ℕ} {objs : List (Object cfg)}
    (h : HoldsAt m data objs) :
    wholeObjects m data (layout objs).length (layout objs).length 0 =
      (reached data objs).map Prod.fst := by
  have hlength := length_lt_of_visible h.visible
  have hparts := beforeSplit_append_fromSplit objs
  cases objs with
  | nil => rfl
  | cons o objs =>
    apply h.wholeObjects_eq
    · rw [hparts]
      exact fun p hp => hp
    · exact fun o ho => isLarge_of_mem_beforeSplit ho
    · exact fun o ho => isLarge_of_mem_head?_fromSplit ho
    · rw [hparts, Nat.zero_add]
    · have hle := congrArg List.length hparts
      rw [List.length_append] at hle
      rw [List.length_cons] at hlength hle
      omega

namespace KeyMapState

open Map

variable {rand : ℕ → ℕ} {s s' : KeyMapState shape} {p : ℕ × Object cfg} {ps : List (ℕ × Object cfg)}

/-! ## Deleting the old keys -/

/-- The entry of a plain object, which the lookup of its key finds. -/
structure Deletable (s : KeyMapState shape) (p : ℕ × Object cfg) : Prop where
  ptr_ne : p.1 ≠ 0
  once : s.keys.buckets.Once
  key : s.ownKey cfg p.1 = .plain p.2.key
  home : ∀ a, s.keys.buckets a = p.1 → shape.Homes (HashFunc.hash p.2.key) a.1
  alone : ∀ ptr, s.keys.buckets.Has ptr → (s.ownKey cfg ptr).equal (.plain p.2.key) = true →
    ptr = p.1

/-- What the deletions of the plain keys of these objects leave. -/
structure Deleted (ps : List (ℕ × Object cfg)) (s s' : KeyMapState shape) : Prop where
  m : s'.m = s.m
  cleared : Cleared (fun ptr => ∃ p ∈ ps, (s.ownKey cfg ptr).equal (.plain p.2.key) = true)
    s.keys.buckets s'.keys.buckets

theorem Deleted.ownKey_eq (h : Deleted ps s s') (ptr : ℕ) :
    s'.ownKey cfg ptr = s.ownKey cfg ptr := by
  unfold ownKey
  rw [h.m]

theorem Deletable.deleted (h : s.Deletable p) (hs : Deleted ps s s') : s'.Deletable p := by
  constructor
  · exact h.ptr_ne
  · exact hs.cleared.once h.once
  · rw [hs.ownKey_eq]
    exact h.key
  · intro a ha
    have hne : s'.keys.buckets a ≠ 0 := ha ▸ h.ptr_ne
    exact h.home a ((hs.cleared.eq_of_ne hne).symm.trans ha)
  · intro ptr hptr hequal
    rw [hs.ownKey_eq] at hequal
    exact h.alone ptr (hs.cleared.has hptr) hequal

/-- One deletion. -/
theorem deleteAt_deleted (hkey : plainKey s.m p.1 = p.2.key) (rand : ℕ → ℕ) : ∃ s',
    deleteAt cfg rand s p.1 = some s' ∧ Deleted [p] s s' ∧
      (s.Deletable p → ¬s'.keys.buckets.Has p.1) := by
  refine ⟨_, rfl, ?_⟩
  rw [hkey]
  rcases del_cases cfg s.m s.keys (.plain p.2.key) with ⟨a, hfind, hdel⟩ | ⟨hnone, hdel⟩
  · have hbuckets : (Map.deleteKey cfg s.m s.keys p.2.key).1.buckets = s.keys.buckets.put a 0 := by
      rw [Map.deleteKey, hfind, Option.isSome_some, if_pos rfl]
      exact hdel
    have hequal := (find_eq_some hfind).2
    rw [isEqual_index] at hequal
    constructor
    · refine ⟨rfl, ?_⟩
      dsimp only
      rw [hbuckets]
      exact Cleared.put ⟨p, List.mem_singleton_self p, hequal⟩
    · intro hp hhas
      dsimp only at hhas
      rw [hbuckets] at hhas
      -- What is found is the entry, and it was in one slot only.
      have ha : s.keys.buckets a = p.1 := hp.alone _ (find_eq_some hfind).1 hequal
      obtain ⟨hne, b, hb⟩ := hhas
      rw [put_apply] at hb
      split_ifs at hb with hba
      · exact hne hb.symm
      · exact hba (hp.once b a (hb ▸ hne) (hb.trans ha.symm))
  · have hbuckets : (Map.deleteKey cfg s.m s.keys p.2.key).1 = s.keys := by
      rw [Map.deleteKey, hnone, Option.isSome_none, if_neg Bool.false_ne_true]
    constructor
    · refine ⟨rfl, ?_⟩
      dsimp only
      rw [hbuckets]
      exact Cleared.refl _
    · rintro hp hhas
      dsimp only at hhas
      rw [hbuckets] at hhas
      obtain ⟨hne, b, hb⟩ := hhas
      have hhome := hp.home b hb
      rw [← Key.hashValue_plain] at hhome
      have hfalse := find_eq_none hnone hhome (hb ▸ hne)
      rw [isEqual_index, hb] at hfalse
      have htrue : (KeyValue.key cfg s.m p.1).equal (.plain p.2.key) = true := by
        have hown : KeyValue.key cfg s.m p.1 = .plain p.2.key := hp.key
        rw [hown]
        exact (Key.equal_iff _ _).mpr ⟨rfl, rfl, rfl⟩
      rw [htrue] at hfalse
      cases hfalse

/-- The first loop. -/
theorem deleteAll (hkey : ∀ p ∈ ps, plainKey s.m p.1 = p.2.key) (rand : ℕ → ℕ) : ∃ s',
    tryRun (deleteAt cfg rand) s (ps.map Prod.fst) = some s' ∧ Deleted ps s s' ∧
      ∀ p ∈ ps, s.Deletable p → ¬s'.keys.buckets.Has p.1 := by
  induction ps generalizing s with
  | nil =>
    exact ⟨s, rfl, ⟨rfl, Cleared.refl _⟩, fun p hp => absurd hp List.not_mem_nil⟩
  | cons p ps ih =>
    obtain ⟨s₁, hs₁, hdeleted, hgone⟩ := deleteAt_deleted (hkey p List.mem_cons_self) rand
    obtain ⟨s', hs', hdeleted', hgone'⟩ := ih fun q hq => by
      rw [hdeleted.m]
      exact hkey q (List.mem_cons_of_mem p hq)
    have hcleared : Cleared (fun ptr => ∃ q ∈ p :: ps,
        (s.ownKey cfg ptr).equal (.plain q.2.key) = true) s₁.keys.buckets s'.keys.buckets := by
      apply hdeleted'.cleared.mono
      rintro ptr ⟨q, hq, hequal⟩
      rw [hdeleted.ownKey_eq] at hequal
      exact ⟨q, List.mem_cons_of_mem p hq, hequal⟩
    refine ⟨s', ?_, ⟨hdeleted'.m.trans hdeleted.m, ?_⟩, ?_⟩
    · rw [List.map_cons, tryRun_cons, hs₁]
      exact hs'
    · refine (hdeleted.cleared.mono ?_).trans hcleared
      rintro ptr ⟨q, hq, hequal⟩
      rw [List.mem_singleton.mp hq] at hequal
      exact ⟨p, List.mem_cons_self, hequal⟩
    · intro q hq hdeletable hhas
      rcases List.mem_cons.mp hq with rfl | hq
      · exact hgone hdeletable (hdeleted'.cleared.has hhas)
      · exact hgone' q hq (hdeletable.deleted hdeleted) hhas

/-! ## Inserting the new keys -/

/-- One insertion. -/
theorem insertAt_inserted (cfg : GlobalConfig) (s : KeyMapState shape) (rand : ℕ → ℕ)
    (obj ptr : ℕ) : ∃ s₁ ok R, insertAt cfg rand obj s ptr = some s₁ ∧ s₁.m = s.m ∧
      Inserted (altOf cfg shape.toTableShape s.m) R
        (shape.bucket₁ (HashFunc.hash (plainKey s.m ptr)))
        (shape.bucket₂ (HashFunc.hash (plainKey s.m ptr))) obj s.keys.buckets s₁.keys.buckets
        ok := by
  obtain ⟨keys, ok, hinsert, hinserted⟩ := insert_spec cfg s.m rand s.keys
    (.plain (plainKey s.m ptr)) obj (closed_reach_altOf _ _) Relation.ReflTransGen.refl
  rw [Key.hashValue_plain] at hinserted
  refine ⟨⟨keys, s.m, if ok then obj :: s.stored else s.stored⟩, ok, _, ?_, rfl, hinserted⟩
  rw [insertAt, insertKey, hinsert]
  rfl

/-- The second loop adds nothing but `obj`, and loses nothing. -/
theorem insertAll (cfg : GlobalConfig) (s : KeyMapState shape) (ptrs : List ℕ) (rand : ℕ → ℕ)
    (obj : ℕ) : ∃ s', tryRun (insertAt cfg rand obj) s ptrs = some s' ∧ s'.m = s.m ∧
      (∀ ptr, s'.keys.buckets.Has ptr → s.keys.buckets.Has ptr ∨ ptr = obj) ∧
      (obj ≠ 0 → ∀ ptr, s.keys.buckets.Has ptr → s'.keys.buckets.Has ptr) := by
  induction ptrs generalizing s with
  | nil => exact ⟨s, rfl, rfl, fun ptr h => Or.inl h, fun _ ptr h => h⟩
  | cons ptr ptrs ih =>
    obtain ⟨s₁, ok, R, hs₁, hm₁, hinserted⟩ := insertAt_inserted cfg s rand obj ptr
    obtain ⟨s', hs', hm, hor, hkept⟩ := ih s₁
    refine ⟨s', ?_, hm.trans hm₁, ?_, ?_⟩
    · rw [tryRun_cons, hs₁]
      exact hs'
    · intro q hq
      rcases hor q hq with hq | rfl
      · exact hinserted.has_or hq
      · exact Or.inr rfl
    · intro hne q hq
      exact hkept hne q ((hinserted.has_iff hne).mpr (Or.inl hq))

/-- With a free slot for the first key, the second loop adds `obj`. -/
theorem insertAll_has {ptr obj : ℕ} {ptrs : List ℕ} (hne : obj ≠ 0)
    (hfree : ¬(s.keys.buckets.Full (shape.bucket₁ (HashFunc.hash (plainKey s.m ptr))) ∧
      s.keys.buckets.Full (shape.bucket₂ (HashFunc.hash (plainKey s.m ptr)))))
    (h : tryRun (insertAt cfg rand obj) s (ptr :: ptrs) = some s') : s'.keys.buckets.Has obj := by
  obtain ⟨s₁, ok, R, hs₁, -, hinserted⟩ := insertAt_inserted cfg s rand obj ptr
  obtain ⟨s'', hs'', -, -, hkept⟩ := insertAll cfg s₁ ptrs rand obj
  rw [tryRun_cons, hs₁, Option.bind_some, hs''] at h
  obtain rfl := Option.some.inj h
  exact hkept hne obj ((hinserted.has_iff hne).mpr (Or.inr ⟨hinserted.ok_of_not_full hfree, rfl⟩))

/-! ## The whole request -/

/-- The state when the chunk is there: a new one is cleared. -/
def chunkState (cfg : GlobalConfig) (s : KeyMapState shape) (found : Bool) (data : ℕ) :
    KeyMapState shape := { s with m := if found then s.m else clearAt cfg s.m data }

theorem holdsAt_clearAt (m : Memory) (data : ℕ) :
    HoldsAt (clearAt cfg m data) data ([] : List (Object cfg)) := by
  constructor
  · apply ChunkHolds.empty
    intro i hi
    simp only [clearAt, Memory.fill]
    rw [if_pos (by omega)]
  · exact fun o ho => absurd ho List.not_mem_nil

theorem prepareChunk_eq (cfg : GlobalConfig) (rand : ℕ → ℕ) (s : KeyMapState shape) (found : Bool)
    (data : ℕ) : prepareChunk cfg rand s found data = some (chunkState cfg s found data) := by
  cases found with
  | true => rfl
  | false =>
    have hat : HoldsAt (clearAt cfg s.m data) data ([] : List (Object cfg)) := holdsAt_clearAt _ _
    rw [prepareChunk, if_neg Bool.false_ne_true, step, hat.chunkObjects_eq]
    rfl

/-- The map holds the live objects of the chunk, and finds the plain ones, for which no other entry
passes. -/
structure Knows (s : KeyMapState shape) (data : ℕ) (old : List (Object cfg)) : Prop where
  once : s.keys.buckets.Once
  own : ∀ ptr, data ≤ ptr → ptr < data + cfg.chunkSize →
    (s.keys.buckets.Has ptr ↔ ∃ p ∈ livePlaced cfg data old, p.1 = ptr)
  found : ∀ p ∈ livePlaced cfg data old, p.2.isLarge = false →
    findOf cfg s.m s.keys p.2 = some p.1
  alone : ∀ p ∈ livePlaced cfg data old, p.2.isLarge = false → ∀ ptr, s.keys.buckets.Has ptr →
    (s.ownKey cfg ptr).equal p.2.mapKey = true → ptr = p.1

/-- The chunk has the bytes of the sender's, the map has the live objects of the new content and
nothing else of the chunk, and the other keys stay as they are. -/
structure SetRight (s s' : KeyMapState shape) (data : ℕ) (sender : Chunk)
    (objs : List (Object cfg)) : Prop where
  bytes : ∀ i < cfg.chunkSize, s'.m (data + i) = sender.data i
  own : ∀ ptr, data ≤ ptr → ptr < data + cfg.chunkSize →
    (s'.keys.buckets.Has ptr ↔ ∃ p ∈ livePlaced cfg data objs, p.1 = ptr)
  found : ∀ p ∈ livePlaced cfg data objs, findOf cfg s'.m s'.keys p.2 = some p.1
  others : ∀ ptr, ptr < data ∨ data + cfg.chunkSize ≤ ptr →
    (s'.keys.buckets.Has ptr → s.keys.buckets.Has ptr) ∧
    (s.keys.buckets.Has ptr → s.m ptr ≠ 0 → s'.keys.buckets.Has ptr)

/-- The request deletes the keys of the objects that the first loop sees, loads the chunk, and goes
through the second loop. -/
theorem handleSetChunkRequest_eq {found : Bool} {data : ℕ} {old : List (Object cfg)}
    (hat : HoldsAt (chunkState cfg s found data).m data old) (rand : ℕ → ℕ) (obj : ℕ)
    (chunkData : Trimmed) : ∃ s₁ s', Deleted (reached data old) (chunkState cfg s found data) s₁ ∧
      (∀ p ∈ reached data old, (chunkState cfg s found data).Deletable p →
        ¬s₁.keys.buckets.Has p.1) ∧
      handleSetChunkRequest cfg rand s found data obj chunkData = some s' ∧
      tryRun (insertAt cfg rand obj) { s₁ with m := loadAt cfg s₁.m data chunkData }
        (wholeObjects (loadAt cfg s₁.m data chunkData) data chunkData.size chunkData.size 0) =
          some s' := by
  obtain ⟨s₁, hs₁, hdeleted, hgone⟩ :=
    deleteAll (fun p hp => hat.plainKey_eq (mem_of_mem_reached hp)) rand
  obtain ⟨s', hs', -⟩ := insertAll cfg { s₁ with m := loadAt cfg s₁.m data chunkData }
    (wholeObjects (loadAt cfg s₁.m data chunkData) data chunkData.size chunkData.size 0) rand obj
  refine ⟨s₁, s', hdeleted, hgone, ?_, hs'⟩
  have hsize := hat.chunk.dataSize_eq hat.visible
  rw [← hat.wholeObjects_eq_reached] at hs₁
  simp only [handleSetChunkRequest, prepareChunk_eq, Option.bind_eq_bind, Option.bind_some, hsize,
    hs₁]
  exact hs'

section

variable {data : ℕ} {old : List (Object cfg)}

theorem mem_livePlaced : p ∈ livePlaced cfg data old ↔ p ∈ placed data old ∧ p.2.Live := by
  rw [livePlaced, List.mem_filter, decide_eq_true_eq]

theorem Knows.has (h : s.Knows data old) (hat : HoldsAt s.m data old)
    (hp : p ∈ livePlaced cfg data old) : s.keys.buckets.Has p.1 := by
  obtain ⟨hmem, -⟩ := mem_livePlaced.mp hp
  have hbounds := mem_placed_bounds hmem
  have hsize := (hat.visible_of_mem hmem).lt_size
  have hfits := hat.chunk.fits
  exact (h.own p.1 hbounds.1 (by omega)).mpr ⟨p, hp, rfl⟩

theorem Knows.deletable (h : s.Knows data old) (hat : HoldsAt s.m data old)
    (hp : p ∈ livePlaced cfg data old) (hplain : p.2.isLarge = false) : s.Deletable p := by
  have hhas := h.has hat hp
  have hkey := Object.mapKey_of_plain hplain
  constructor
  · exact hhas.1
  · exact h.once
  · have hown := hat.key_eq (mem_livePlaced.mp hp).1
    rwa [hkey] at hown
  · have hfind := h.found p hp hplain
    rw [findOf_eq, hkey] at hfind
    obtain ⟨b, hhome, hb⟩ := exists_home_of_find hfind
    rw [Key.hashValue_plain] at hhome
    intro a ha
    rw [h.once a b (ha ▸ hhas.1) (ha.trans hb.symm)]
    exact hhome
  · rw [← hkey]
    exact h.alone p hp hplain

/-- A live object at or behind the first split keeps its entry, unless the split is live and not
this one. -/
theorem Knows.survives (h : s.Knows data old) (hat : HoldsAt s.m data old)
    (hdeleted : Deleted (reached data old) s s') {l : Object cfg} {rest : List (Object cfg)}
    (hfrom : fromSplit old = l :: rest) (hlive : p.2.Live)
    (hp : p ∈ placed (splitAt data old) (fromSplit old)) (hfirst : l.Live → p.2 = l) :
    s'.keys.buckets.Has p.1 := by
  have hmem : p ∈ placed data old := by
    rw [placed_split]
    exact List.mem_append_right _ hp
  have hhas := h.has hat (mem_livePlaced.mpr ⟨hmem, hlive⟩)
  apply hdeleted.cleared.has_of_not hhas
  rintro ⟨q, hq, hequal⟩
  have hown : s.ownKey cfg p.1 = p.2.mapKey := hat.key_eq hmem
  rw [hown] at hequal
  obtain ⟨hsize, hlarge, -⟩ := (Key.equal_iff _ _).mp hequal
  rw [Object.mapKey_size] at hsize
  rw [Object.mapKey_isLarge] at hlarge
  have hdead : ¬¬q.2.Live := by
    intro hq'
    have hempty : q.2.key = [] := not_not.mp hq'
    rw [hempty] at hsize
    exact hlive (List.length_eq_zero_iff.mp hsize)
  rcases List.mem_append.mp hq with hq | hq
  · -- In front of the split, another live object would pass for this one.
    have hplain := isLarge_of_mem_beforeSplit (snd_mem_of_mem_placed hq)
    have hq' : q ∈ placed data old := by
      rw [placed_split]
      exact List.mem_append_left _ hq
    have heq := h.alone q (mem_livePlaced.mpr ⟨hq', not_not.mp hdead⟩) hplain p.1 hhas (by
      rw [hown, Object.mapKey_of_plain hplain]
      exact hequal)
    have hbefore := mem_placed_bounds hq
    have hbehind := mem_placed_bounds hp
    have hlt := (hat.visible_of_mem hq').lt_size
    unfold splitAt at hbehind
    omega
  · rw [hfrom] at hq
    have hql : q.2 = l := by
      rw [List.mem_singleton.mp hq]
    rw [hfirst (hql ▸ not_not.mp hdead)] at hlarge
    have hlarge' : l.isLarge = true := by
      apply isLarge_of_mem_head?_fromSplit
      rw [hfrom]
      rfl
    rw [hlarge'] at hlarge
    cases hlarge

/-- A live object at or behind the first split leaves an entry of the old content in the map. -/
theorem Knows.exists_survivor (h : s.Knows data old) (hat : HoldsAt s.m data old)
    (hdeleted : Deleted (reached data old) s s') {o : Object cfg} (ho : o ∈ fromSplit old)
    (hlive : o.Live) : ∃ p ∈ placed data old, s'.keys.buckets.Has p.1 := by
  cases hfrom : fromSplit old with
  | nil =>
    rw [hfrom] at ho
    cases ho
  | cons l rest =>
    have hplaced : ∀ p ∈ placed (splitAt data old) (fromSplit old), p ∈ placed data old := by
      intro p hp
      rw [placed_split]
      exact List.mem_append_right _ hp
    by_cases hl : l.Live
    · have hp : (splitAt data old, l) ∈ placed (splitAt data old) (fromSplit old) := by
        rw [hfrom]
        exact List.mem_cons_self
      exact ⟨_, hplaced _ hp, h.survives hat hdeleted hfrom hl hp fun _ => rfl⟩
    · rw [← map_snd_placed (splitAt data old) (fromSplit old)] at ho
      obtain ⟨p, hp, rfl⟩ := List.mem_map.mp ho
      exact ⟨p, hplaced p hp, h.survives hat hdeleted hfrom hlive hp fun hl' => absurd hl' hl⟩

/-- Without such an object, the first loop deletes what the map holds of the chunk. -/
theorem Knows.gone (h : s.Knows data old) (hat : HoldsAt s.m data old)
    (hgone : ∀ p ∈ reached data old, s.Deletable p → ¬s'.keys.buckets.Has p.1)
    (hdead : ∀ o ∈ fromSplit old, ¬o.Live) {p : ℕ × Object cfg}
    (hp : p ∈ livePlaced cfg data old) : ¬s'.keys.buckets.Has p.1 := by
  obtain ⟨hmem, hlive⟩ := mem_livePlaced.mp hp
  rw [placed_split] at hmem
  rcases List.mem_append.mp hmem with hbefore | hfrom
  · exact hgone p (List.mem_append_left _ hbefore)
      (h.deletable hat hp (isLarge_of_mem_beforeSplit (snd_mem_of_mem_placed hbefore)))
  · exact absurd hlive (hdead p.2 (snd_mem_of_mem_placed hfrom))

/-- The entries of other objects stay. -/
theorem Knows.kept (h : s.Knows data old) (hat : HoldsAt s.m data old)
    (hdeleted : Deleted (reached data old) s s') (hdead : ∀ o ∈ fromSplit old, ¬o.Live) {ptr : ℕ}
    (hout : ptr < data ∨ data + cfg.chunkSize ≤ ptr) (hhas : s.keys.buckets.Has ptr)
    (hkey : s.m ptr ≠ 0) : s'.keys.buckets.Has ptr := by
  apply hdeleted.cleared.has_of_not hhas
  rintro ⟨q, hq, hequal⟩
  have hmem := mem_of_mem_reached hq
  by_cases hlive : q.2.Live
  · have hplain : q.2.isLarge = false := by
      rcases List.mem_append.mp hq with hq | hq
      · exact isLarge_of_mem_beforeSplit (snd_mem_of_mem_placed hq)
      · exact absurd hlive (hdead q.2 (snd_mem_of_mem_placed (List.mem_of_mem_take hq)))
    have heq := h.alone q (mem_livePlaced.mpr ⟨hmem, hlive⟩) hplain ptr hhas (by
      rw [Object.mapKey_of_plain hplain]
      exact hequal)
    have hbounds := mem_placed_bounds hmem
    have hlt := (hat.visible_of_mem hmem).lt_size
    have hfits := hat.chunk.fits
    omega
  · have hempty : q.2.key = [] := not_not.mp hlive
    have hsize := ((Key.equal_iff _ _).mp hequal).1
    have hzero : (s.m ptr).toNat = 0 := by
      rw [← KeyValue.deserialize_keySize cfg]
      rw [hempty] at hsize
      exact hsize
    exact hkey (UInt8.toNat_inj.mp hzero)

end

theorem chunkState_m_of_out (cfg : GlobalConfig) (s : KeyMapState shape) (found : Bool)
    {data ptr : ℕ} (h : ptr < data ∨ data + cfg.chunkSize ≤ ptr) :
    (chunkState cfg s found data).m ptr = s.m ptr := by
  cases found with
  | true => rfl
  | false =>
    have hfill : (s.m.fill data cfg.chunkSize 0) ptr = s.m ptr := by
      simp only [Memory.fill]
      rw [if_neg (by omega)]
    exact hfill

/-! ## What is sent of a chunk -/

section

variable {dataChunkCount : ℕ} {objs : List (Object cfg)} {sender : Chunk}

theorem getSize_sender (hparity : isParity dataChunkCount sender = false)
    (hsender : ChunkHolds sender.data objs) (hv : ∀ o ∈ objs, o.Visible) :
    getSize cfg dataChunkCount sender = (layout objs).length := by
  rw [getSize, hparity, if_neg Bool.false_ne_true, hsender.dataSize_eq hv]

/-- What arrives from a data chunk is loaded as it was sent. -/
theorem loadAt_apply (hparity : isParity dataChunkCount sender = false)
    (hsender : ChunkHolds sender.data objs) (hv : ∀ o ∈ objs, o.Visible) (m : Memory) (data : ℕ) :
    ∀ i < cfg.chunkSize, loadAt cfg m data (getData cfg dataChunkCount sender) (data + i) =
      sender.data i := by
  have hsize := getSize_sender hparity hsender hv
  have hcarried : Carried cfg dataChunkCount sender := by
    apply (carried_iff cfg dataChunkCount sender ?_).mpr
    · intro i hi hlt
      have hfits := hsender.fits
      omega
    · rw [hsize]
      exact hsender.zero
  intro i hi
  have hsame := hcarried.same (fun j => m (data + j)) i hi
  simp only [loadAt]
  rw [if_neg (by omega), Nat.add_sub_cancel_left]
  exact hsame

theorem holdsAt_loadAt (hparity : isParity dataChunkCount sender = false)
    (hsender : ChunkHolds sender.data objs) (hv : ∀ o ∈ objs, o.Visible) (m : Memory) (data : ℕ) :
    HoldsAt (loadAt cfg m data (getData cfg dataChunkCount sender)) data objs := by
  have hbytes := loadAt_apply hparity hsender hv m data
  have hfits := hsender.fits
  constructor
  · constructor
    · apply hsender.holds.congr
      intro i _ hi
      exact hbytes i (by omega)
    · exact hfits
    · intro i hi hlt
      exact (hbytes i hlt).trans (hsender.zero i hi hlt)
  · exact hv

/-- Nothing is sent of a chunk without objects. -/
theorem size_getData_nil (hparity : isParity dataChunkCount sender = false)
    (hsender : ChunkHolds sender.data ([] : List (Object cfg))) :
    (getData cfg dataChunkCount sender).size = 0 := by
  have hsize := getSize_sender hparity hsender fun o ho => absurd ho List.not_mem_nil
  unfold getData
  dsimp only
  rw [hsize, layout_nil, List.length_nil, if_neg (lt_irrefl 0)]

/-- Something is sent of a chunk with objects. -/
theorem size_getData_pos (hparity : isParity dataChunkCount sender = false)
    (hsender : ChunkHolds sender.data objs) (hv : ∀ o ∈ objs, o.Visible) (hne : objs ≠ []) :
    0 < (getData cfg dataChunkCount sender).size := by
  have hlength := length_lt_of_visible hv
  have hcount := List.length_pos_iff.mpr hne
  have hsize := getSize_sender hparity hsender hv
  have hpos : 0 < getSize cfg dataChunkCount sender := by omega
  obtain ⟨offset, stop, hdata, htrimmed⟩ := getData_trimmedTo hpos
  rw [hdata]
  dsimp only
  rcases htrimmed.last with hall | ⟨i, hi, hbyte⟩
  · have hzero : dataSize cfg sender.data = 0 := dataSize_of_zero fun i hi => hall i (by omega)
    have hlen := hsender.dataSize_eq hv
    omega
  · have hle : offset ≤ i := by
      by_contra hlt
      exact hbyte (htrimmed.before i (by omega))
    omega

end

/-- With a free slot for its first key, new content makes the second loop add `obj`. -/
theorem has_obj {found : Bool} {data dataChunkCount obj : ℕ} {old objs : List (Object cfg)}
    {o : Object cfg} {sender : Chunk} (hat : HoldsAt (chunkState cfg s found data).m data old)
    (hparity : isParity dataChunkCount sender = false)
    (hsender : ChunkHolds sender.data (o :: objs)) (hv : ∀ x ∈ o :: objs, x.Visible)
    (hfree : ¬(s.keys.buckets.Full (shape.bucket₁ (HashFunc.hash o.key)) ∧
      s.keys.buckets.Full (shape.bucket₂ (HashFunc.hash o.key)))) (hobj : obj ≠ 0)
    (h : handleSetChunkRequest cfg rand s found data obj (getData cfg dataChunkCount sender) =
      some s') : s'.keys.buckets.Has obj := by
  obtain ⟨s₁, s'', hdeleted, -, hs'', hinsert⟩ :=
    handleSetChunkRequest_eq hat rand obj (getData cfg dataChunkCount sender)
  obtain rfl := Option.some.inj (h.symm.trans hs'')
  have hpos := size_getData_pos hparity hsender hv (List.cons_ne_nil o objs)
  have hat' := holdsAt_loadAt hparity hsender hv s₁.m data
  generalize getData cfg dataChunkCount sender = chunkData at hinsert hpos hat'
  obtain ⟨n, hn⟩ := Nat.exists_eq_add_one_of_ne_zero hpos.ne'
  rw [hn, wholeObjects, if_pos (Nat.succ_pos n)] at hinsert
  refine insertAll_has hobj ?_ hinsert
  have hkey : plainKey (loadAt cfg s₁.m data chunkData) data = o.key :=
    hat'.plainKey_eq (p := (data, o)) List.mem_cons_self
  dsimp only
  rw [Nat.add_zero, hkey]
  intro hfull
  by_cases h₁ : s.keys.buckets.Full (shape.bucket₁ (HashFunc.hash o.key))
  · exact hdeleted.cleared.not_full (fun h₂ => hfree ⟨h₁, h₂⟩) hfull.2
  · exact hdeleted.cleared.not_full h₁ hfull.1

/-- The chunk gets the sender's bytes in every case. The rest is right, whatever `obj` is, exactly
when the new content is empty and the old one has nothing live at or behind its first split. -/
theorem handleSetChunkRequest_right_iff {found : Bool} {data dataChunkCount : ℕ}
    {old objs : List (Object cfg)} {sender : Chunk}
    (hat : HoldsAt (chunkState cfg s found data).m data old)
    (hknows : (chunkState cfg s found data).Knows data old)
    (hparity : isParity dataChunkCount sender = false) (hsender : ChunkHolds sender.data objs)
    (hv : ∀ o ∈ objs, o.Visible)
    (hfree : ∀ o ∈ objs.head?, ¬(s.keys.buckets.Full (shape.bucket₁ (HashFunc.hash o.key)) ∧
      s.keys.buckets.Full (shape.bucket₂ (HashFunc.hash o.key)))) (rand : ℕ → ℕ) :
    (∀ obj, ∃ s', handleSetChunkRequest cfg rand s found data obj
        (getData cfg dataChunkCount sender) = some s' ∧
      ∀ i < cfg.chunkSize, s'.m (data + i) = sender.data i) ∧
    ((∀ obj, ∃ s', handleSetChunkRequest cfg rand s found data obj
        (getData cfg dataChunkCount sender) = some s' ∧ SetRight s s' data sender objs) ↔
      objs = [] ∧ ∀ o ∈ fromSplit old, ¬o.Live) := by
  have hrun := fun obj => handleSetChunkRequest_eq hat rand obj (getData cfg dataChunkCount sender)
  refine ⟨?_, ?_, ?_⟩
  · intro obj
    obtain ⟨s₁, s', -, -, hs', hinsert⟩ := hrun obj
    obtain ⟨s'', hs'', hm, -⟩ := insertAll cfg { s₁ with
      m := loadAt cfg s₁.m data (getData cfg dataChunkCount sender) } _ rand obj
    obtain rfl := Option.some.inj (hinsert.symm.trans hs'')
    refine ⟨s', hs', fun i hi => ?_⟩
    rw [hm]
    exact loadAt_apply hparity hsender hv s₁.m data i hi
  · intro hall
    have hempty : objs = [] := by
      cases objs with
      | nil => rfl
      | cons o objs =>
        -- No object is at the second byte of the chunk.
        obtain ⟨s', hs', hright⟩ := hall (data + 1)
        have hhas := has_obj hat hparity hsender hv (hfree o rfl) (Nat.succ_ne_zero data) hs'
        have hc := cfg.le_chunkSize
        obtain ⟨p, hp, heq⟩ := (hright.own (data + 1) (by omega) (by omega)).mp hhas
        have ho := (hv o List.mem_cons_self).lt_size
        rcases List.mem_cons.mp (mem_livePlaced.mp hp).1 with rfl | hp'
        · dsimp only at heq
          omega
        · have hbounds := mem_placed_bounds hp'
          omega
    subst hempty
    refine ⟨rfl, fun o ho hlive => ?_⟩
    obtain ⟨s', hs', hright⟩ := hall 0
    obtain ⟨s₁, s'', hdeleted, -, hs'', hinsert⟩ := hrun 0
    obtain rfl := Option.some.inj (hs'.symm.trans hs'')
    rw [size_getData_nil hparity hsender, wholeObjects, tryRun_nil] at hinsert
    obtain rfl := Option.some.inj hinsert
    obtain ⟨p, hp, hhas⟩ := hknows.exists_survivor hat hdeleted ho hlive
    have hbounds := mem_placed_bounds hp
    have hlt := (hat.visible_of_mem hp).lt_size
    have hfits := hat.chunk.fits
    obtain ⟨q, hq, -⟩ := (hright.own p.1 hbounds.1 (by omega)).mp hhas
    cases hq
  · rintro ⟨rfl, hdead⟩ obj
    obtain ⟨s₁, s', hdeleted, hgone, hs', hinsert⟩ := hrun obj
    rw [size_getData_nil hparity hsender, wholeObjects, tryRun_nil] at hinsert
    obtain rfl := Option.some.inj hinsert
    refine ⟨_, hs', ?_⟩
    constructor
    · exact loadAt_apply hparity hsender hv s₁.m data
    · intro ptr hle hlt
      constructor
      · intro hhas
        obtain ⟨p, hp, rfl⟩ := (hknows.own ptr hle hlt).mp (hdeleted.cleared.has hhas)
        exact absurd hhas (hknows.gone hat hgone hdead hp)
      · rintro ⟨p, hp, -⟩
        cases hp
    · intro p hp
      cases hp
    · intro ptr hout
      constructor
      · exact fun hhas => hdeleted.cleared.has hhas
      · intro hhas hkey
        rw [← chunkState_m_of_out cfg s found hout] at hkey
        exact hknows.kept hat hdeleted hdead hout hhas hkey

/-! ## Small chunks -/

def oneObject : Object .smallest := .plain [110] [118] (by decide) (by decide)

/-- A map with one object, which is in the chunk at 32. -/
def oneObjectState : KeyMapState .default where
  keys := { CuckooHash.init IndexShape.default.toTableShape with
    buckets := (CuckooHash.init IndexShape.default.toTableShape).buckets.put
      (IndexShape.default.bucket₁ (HashFunc.hash oneObject.key), Fin.last 3) 32 }
  m := .place 32 (layout [oneObject])
  stored := [32]

theorem has_oneObjectState {ptr : ℕ} : oneObjectState.keys.buckets.Has ptr ↔ ptr = 32 := by
  unfold oneObjectState
  dsimp only
  rw [has_put rfl (by decide)]
  exact or_iff_right fun h => h.1 (h.2.elim fun _ ha => ha.symm)

theorem oneObjectState_knows : oneObjectState.Knows 32 [oneObject] where
  once := Once.put (fun _ _ ha => absurd rfl ha) fun h => h.2.elim fun _ ha => h.1 ha.symm
  own := by
    intro ptr _ _
    have hlive : livePlaced .smallest 32 [oneObject] = [(32, oneObject)] := rfl
    rw [has_oneObjectState, hlive]
    simp [eq_comm]
  found := by decide +kernel
  alone := by
    intro p hp _ ptr hptr _
    have hlive : livePlaced .smallest 32 [oneObject] = [(32, oneObject)] := rfl
    rw [hlive] at hp
    rw [has_oneObjectState.mp hptr, List.mem_singleton.mp hp]

def emptyChunk : Chunk := ⟨0, 0, 0, 0⟩

/-- An empty chunk arrives. -/
theorem right_emptyChunk : ChunkHolds emptyChunk.data ([] : List (Object .smallest)) ∧
    ∀ obj, ∃ s', handleSetChunkRequest .smallest (fun _ => 0) oneObjectState true 32 obj
        (getData .smallest 1 emptyChunk) = some s' ∧
      SetRight oneObjectState s' 32 emptyChunk ([] : List (Object .smallest)) := by
  have hat : HoldsAt (chunkState .smallest oneObjectState true 32).m 32 [oneObject] :=
    HoldsAt.place 32 (by decide) (by decide)
  have hempty : ChunkHolds emptyChunk.data ([] : List (Object .smallest)) :=
    ChunkHolds.empty fun _ _ => rfl
  refine ⟨hempty, ?_⟩
  exact (handleSetChunkRequest_right_iff hat oneObjectState_knows rfl hempty
    (fun o ho => absurd ho List.not_mem_nil) (fun o ho => absurd ho (Option.not_mem_none o))
    fun _ => 0).2.mpr ⟨rfl, by decide⟩

def twoObjects : List (Object .smallest) :=
  [.plain [111] [118] (by decide) (by decide), .plain [112] [118] (by decide) (by decide)]

def twoObjectsChunk : Chunk := ⟨0, 0, 0, .place 0 (layout twoObjects)⟩

/-- Two objects arrive at a server without objects. All that is inserted is `obj`, which is not the
address of both. -/
theorem not_right_twoObjects : ChunkHolds twoObjectsChunk.data twoObjects ∧
    ∀ obj, ¬∃ s', handleSetChunkRequest .smallest (fun _ => 0) (start .default 0) false 32 obj
        (getData .smallest 1 twoObjectsChunk) = some s' ∧
      SetRight (start .default 0) s' 32 twoObjectsChunk twoObjects := by
  refine ⟨ChunkHolds.place (by decide), ?_⟩
  rintro obj ⟨s', hs', hright⟩
  have hat : HoldsAt (chunkState .smallest (start .default 0) false 32).m 32
      ([] : List (Object .smallest)) := holdsAt_clearAt _ _
  obtain ⟨s₁, s'', hdeleted, -, hs'', hinsert⟩ :=
    handleSetChunkRequest_eq hat (fun _ => 0) obj (getData .smallest 1 twoObjectsChunk)
  obtain rfl := Option.some.inj (hs'.symm.trans hs'')
  obtain ⟨s₂, hs₂, -, hor, -⟩ := insertAll .smallest { s₁ with
    m := loadAt .smallest s₁.m 32 (getData .smallest 1 twoObjectsChunk) } _ (fun _ => 0) obj
  obtain rfl := Option.some.inj (hinsert.symm.trans hs₂)
  have honly : ∀ ptr, s'.keys.buckets.Has ptr → ptr = obj := by
    intro ptr hptr
    refine (hor ptr hptr).resolve_left fun hold => ?_
    obtain ⟨hne, a, ha⟩ := hdeleted.cleared.has hold
    exact hne ha.symm
  have hfirst := honly 32 ((hright.own 32 (by decide) (by decide)).mpr (by decide))
  have hsecond := honly 38 ((hright.own 38 (by decide) (by decide)).mpr (by decide))
  omega

end KeyMapState

end MemEC.Server
