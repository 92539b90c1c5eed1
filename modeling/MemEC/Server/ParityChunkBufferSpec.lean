import MemEC.Server.ParityChunkBuffer

/-!
# What the parity chunk buffer does with an object

`Encodes b data` says that the parity chunks of the buffer are those of the
stripes `data`. The other lemmas say what `set`, the loop in `seal` and
`updateKeyValue` do with an object; a caller does not have to look at the
bytes of a request again.
-/

namespace MemEC.Server

open MemEC.Lib MemEC.Common KeyValue

variable {cfg : GlobalConfig}

namespace ParityChunkBuffer

variable {b : ParityChunkBuffer cfg} {data : ℕ → ℕ → Memory}

/-- The parity chunk of every stripe is the parity of `data`. -/
def Encodes (b : ParityChunkBuffer cfg) (data : ℕ → ℕ → Memory) : Prop :=
  ∀ stripeId, ∀ i < cfg.chunkSize,
    (b.getWrapper stripeId).chunk i = b.coding.parity b.parityIndex (data stripeId) i

/-! ## Parity deltas -/

theorem getWrapper_applyDelta (stripeId chunkId : ℕ) (parityChunk : Memory) (isSeal backup : Bool)
    (s : ℕ) : ((b.applyDelta stripeId chunkId parityChunk isSeal backup).getWrapper s).chunk =
      if s = stripeId then (b.getWrapper s).chunk.xorInto 0 parityChunk 0 cfg.chunkSize
      else (b.getWrapper s).chunk := by
  split_ifs with h
  · subst h
    simp [getWrapper, applyDelta]
  · simp [getWrapper, applyDelta, AList.lookup_insert_ne h]

theorem Encodes.applyDelta (h : b.Encodes data) (stripeId chunkId : ℕ) (m : Memory)
    (isSeal backup : Bool) :
    (b.applyDelta stripeId chunkId (b.coding.parityOf b.parityIndex chunkId m) isSeal
      backup).Encodes (data + Pi.single stripeId (Pi.single chunkId m)) := by
  intro s i hi
  have hparity : ∀ s, b.coding.parity b.parityIndex
      ((data + Pi.single stripeId (Pi.single chunkId m) : ℕ → ℕ → Memory) s) =
        b.coding.parity b.parityIndex (data s)
        + if s = stripeId then b.coding.parityOf b.parityIndex chunkId m else 0 := by
    intro s
    rw [Pi.add_apply, map_add]
    split_ifs with hs
    · subst hs
      rw [Pi.single_eq_same, Coding.parity_single]
    · rw [Pi.single_eq_of_ne hs, map_zero]
  rw [getWrapper_applyDelta]
  refine Eq.trans ?_ (congrFun (hparity s) i).symm
  rw [Memory.add_apply, ← h s i hi]
  split_ifs with hs
  · simp [Memory.xorInto, hi]
  · exact (UInt8.xor_zero).symm

/-- An update whose delta is zero outside its range applies the parity of the delta. -/
theorem update_eq (stripeId : ℕ) {chunkId offset size : ℕ} {dataChunk : Memory}
    (isSeal backup : Bool) (hk : chunkId < b.coding.dataChunkCount) (hoff : offset ≤ cfg.chunkSize)
    (hsize : size < 2 ^ 24 + 259)
    (hz : ∀ i < cfg.chunkSize, (i < offset ∨ offset + size ≤ i) → dataChunk i = 0) :
    b.update stripeId chunkId offset size dataChunk isSeal false backup = some (b.applyDelta
      stripeId chunkId (b.coding.parityOf b.parityIndex chunkId dataChunk) isSeal backup) := by
  simp only [update, Bool.false_and, Bool.false_eq_true, if_false]
  rw [b.coding.encode_single hk hoff hsize hz]

/-! ## SET -/

section Set

variable {o : Object cfg} (b)

theorem parseKeyValueHeader_eq (o : Object cfg) :
    parseKeyValueHeader cfg (.place 0 o.bytes) o.bytes.length =
      some ⟨4, o.key.length, 4 + o.keyBytes.length, o.valueSize, o.splitOffset⟩ := by
  have hsize := o.size_eq
  have hp := o.length_payload
  rw [Object.size] at hsize
  have hd := Object.deserialize_eq (Memory.holds_write 0 0 o.bytes)
  simp only [Nat.zero_add] at hd
  have hl : LargeObjectUtil.isLarge cfg o.key.length o.valueSize = o.isLarge := rfl
  simp only [parseKeyValueHeader, Memory.place, hd, hl, ← hp]
  rw [if_neg (by omega)]
  cases hlarge : o.isLarge with
  | true =>
    rw [hlarge, if_pos rfl] at hsize
    rw [if_pos rfl, if_neg (by omega)]
  | false =>
    have hv := o.payload_of_plain hlarge
    rw [hlarge, if_neg Bool.false_ne_true] at hsize
    rw [if_neg Bool.false_ne_true, if_neg (by omega)]

/-- The key and the object that `set` takes from the request. -/
theorem request_parts (o : Object cfg) :
    Key.ofMemory (.place 0 o.bytes) 4 o.key.length o.isLarge = o.mapKey ∧
      ∀ off, KeyValue.serialize cfg 0 off (some ((Memory.place 0 o.bytes).read 4 o.key.length))
        o.key.length (some ((Memory.place 0 o.bytes).read (4 + o.keyBytes.length) o.valueSize))
        o.valueSize o.splitOffset = .place off o.bytes := by
  have hholds : (Memory.place 0 o.bytes).Holds 0 o.bytes := Memory.holds_write 0 0 o.bytes
  have hkey := Object.ofMemory_eq hholds
  have hser := Object.serialize_read hholds 0
  simp only [Nat.zero_add] at hkey hser
  exact ⟨hkey, hser⟩

/-- `set`, with the object in place of the request. -/
theorem handleSetRequest_eq (o : Object cfg) (chunkId : ℕ) : b.handleSetRequest o.bytes chunkId =
    if (b.keys.find o.mapKey).isSome then some b
    else match b.pending.find o.mapKey with
    | none => some { b with keys := (b.keys.insertNew o.mapKey (.place 0 o.bytes)).1 }
    | some (.prtSeal stripeId offset) =>
      { b with
        pending := b.pending.eraseKey o.mapKey
        folded := b.folded ++ [o.mapKey] }.update stripeId chunkId offset
          (u32 (4 + o.key.length + o.valueSize)) (.place offset o.bytes) false false true
    | some _ => some { b with pending := b.pending.eraseKey o.mapKey } := by
  obtain ⟨hkey, hser⟩ := request_parts o
  have hl : LargeObjectUtil.isLarge cfg o.key.length o.valueSize = o.isLarge := rfl
  simp only [handleSetRequest, parseKeyValueHeader_eq, hl, hkey, findValueByKey]
  split_ifs with hfind
  · rfl
  · simp only [set, hl, hkey, dup, hser]
    cases b.pending.find o.mapKey with
    | none => rfl
    | some req =>
      cases req with
      | prtSeal stripeId offset => exact Option.map_map _ _ _
      | prtUpdate offset length buf => rfl
      | prtDelete => rfl

end Set

/-! ## SEAL_CHUNK -/

theorem sealStep_of_none {s : SealLoop cfg} {r : SealRecord}
    (h : s.buffer.keys.find r.key = none) (sid : ℕ) :
    (sealStep sid s r).buffer.keys = s.buffer.keys ∧ (sealStep sid s r).buffer.pending =
      (s.buffer.pending.insertNew r.key (.prtSeal sid r.offset)).1 := by
  simp only [sealStep, h, and_self]

theorem sealStep_of_some {s : SealLoop cfg} {r : SealRecord} {keyValue : Memory}
    (h : s.buffer.keys.find r.key = some keyValue) (sid : ℕ) :
    (sealStep sid s r).buffer.keys = s.buffer.keys.eraseKey r.key ∧
      (sealStep sid s r).buffer.pending = s.buffer.pending := by
  simp only [sealStep, h, and_self]

/-- A SEAL_CHUNK request changes the maps in its loop only. -/
theorem sealChunk_maps {b' : ParityChunkBuffer cfg} {request : SealRequest}
    (h : b.handle (.sealChunk request) = some b') :
    b'.keys = (request.records.foldl (sealStep request.stripeId) ⟨b, 0, 0, true⟩).buffer.keys ∧
      b'.pending =
        (request.records.foldl (sealStep request.stripeId) ⟨b, 0, 0, true⟩).buffer.pending := by
  simp only [handle, sealChunk, update, Bool.false_and, Bool.false_eq_true, if_false] at h
  split_ifs at h
  · rw [Option.map_some, Option.map_some, Option.some.injEq] at h
    subst h
    exact ⟨rfl, rfl⟩
  · cases h

/-! ## UPDATE -/

/-- An update of an object that is stored goes to the stored object. -/
theorem updateKeyValue_of_some {o : Object cfg} {keyValue : Memory}
    (h : b.keys.find o.mapKey = some keyValue) (offset : ℕ) (valueUpdate : List UInt8) :
    b.updateKeyValue o.mapKey offset valueUpdate =
      ({ b with keys := b.keys.assign o.mapKey (keyValue.xorInto
        (4 + o.keyBytes.length + offset) (.place 0 valueUpdate) 0 valueUpdate.length) }, true) := by
  simp only [updateKeyValue, h, o.mapKey_size, o.mapKey_isLarge, o.length_keyBytes, Nat.add_assoc]

theorem handleUpdateRequest_of_some {header : ChunkKeyValueUpdateHeader} {o : Object cfg}
    {keyValue : Memory} (hkey : header.key = o.mapKey)
    (h : b.keys.find o.mapKey = some keyValue) :
    b.handleUpdateRequest header = some { b with keys := b.keys.assign o.mapKey (keyValue.xorInto
      (4 + o.keyBytes.length + header.valueUpdateOffset) (.place 0 header.valueUpdate) 0
      header.valueUpdate.length) } := by
  simp only [handleUpdateRequest, hkey, updateKeyValue_of_some h, if_true]

/-- The wrapper of a new stripe is all zero. -/
theorem Encodes.prepare (h : b.Encodes data) (stripeId : ℕ) (pending : KeyMap PendingRequest)
    (getChunkBuffer : GetChunkBuffer) :
    { b with chunks := b.chunks.insert stripeId (b.getWrapper stripeId), pending,
             getChunkBuffer : ParityChunkBuffer cfg }.Encodes data := by
  intro s i hi
  have hwrapper : (ParityChunkBuffer.getWrapper { b with
      chunks := b.chunks.insert stripeId (b.getWrapper stripeId), pending, getChunkBuffer } s) =
        b.getWrapper s := by
    by_cases hs : s = stripeId
    · subst hs
      simp [getWrapper]
    · simp [getWrapper, AList.lookup_insert_ne hs]
  rw [hwrapper]
  exact h s i hi

/-- A delta goes to the parity chunk by its position. -/
theorem updateChunk_eq (h : b.Encodes data) (stripeId : ℕ) {chunkId offset : ℕ}
    {delta : List UInt8} (hk : chunkId < b.coding.dataChunkCount)
    (hoff : offset + delta.length ≤ cfg.chunkSize) :
    ∃ b', b.updateChunk stripeId chunkId offset delta false = some b' ∧ b'.coding = b.coding ∧
      b'.chunkId = b.chunkId ∧ b'.keys = b.keys ∧ b'.folded = b.folded ∧
      b'.pending = b.pending ∧
      b'.Encodes (data + Pi.single stripeId (Pi.single chunkId (.place offset delta))) := by
  have hc := cfg.chunkSize_le
  have hstart : offset ≤ cfg.chunkSize := by omega
  have hsize : delta.length < 2 ^ 24 + 259 := by omega
  have hupdate := update_eq stripeId false false hk hstart hsize
    (fun i _ hi => Memory.place_apply_out hi)
  exact ⟨_, hupdate, rfl, rfl, rfl, rfl, rfl, h.applyDelta _ _ _ _ _⟩

/-- An update of an object that is not stored goes to the parity chunk by its position. -/
theorem handleUpdateRequest_eq (header : ChunkKeyValueUpdateHeader) (h : b.Encodes data)
    (hfind : b.keys.find header.key = none) (hk : header.chunkId < b.coding.dataChunkCount)
    (hoff : header.chunkUpdateOffset + header.valueUpdate.length ≤ cfg.chunkSize) :
    ∃ b', b.handleUpdateRequest header = some b' ∧ b'.coding = b.coding ∧
      b'.chunkId = b.chunkId ∧ b'.keys = b.keys ∧ b'.folded = b.folded ∧
      b'.pending = (b.pending.insertNew header.key (.prtUpdate header.valueUpdateOffset
        header.valueUpdate.length header.valueUpdate)).1 ∧
      b'.Encodes (data + Pi.single header.stripeId (Pi.single header.chunkId
        (.place header.chunkUpdateOffset header.valueUpdate))) := by
  simp only [handleUpdateRequest, updateKeyValue, hfind, Bool.false_eq_true, if_false]
  exact updateChunk_eq (h.prepare header.stripeId _ _) header.stripeId hk hoff

end ParityChunkBuffer

end MemEC.Server
