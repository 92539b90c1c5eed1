import MemEC.Server.ObjectServer

/-!
# Updating an object at its data server

The new bytes are XOR-ed with the old ones, which gives the delta for the parity
servers, and the delta is XOR-ed into the chunk. The offset and the size of an
update are taken as the client gives them, and nothing is compared with the size
of the stored value.
-/

namespace MemEC.Common.ChunkUtil

open MemEC.Lib

variable {cfg : GlobalConfig}

/-- With the delta XOR-ed in, the new data is in its place. -/
theorem computeDelta_eq_write (m : Memory) (newData : List UInt8) (offset : ℕ) :
    (computeDelta m newData offset newData.length true).2 = m.write offset newData := by
  ext i : 1
  simp only [computeDelta, if_true]
  by_cases hin : offset ≤ i ∧ i < offset + newData.length
  · obtain ⟨j, rfl⟩ := Nat.exists_eq_add_of_le hin.1
    have hj : j < newData.length := by omega
    have hplace : Memory.place 0 newData j = newData[j] := by
      rw [← Memory.place_apply hj, Nat.zero_add]
    rw [Memory.xorInto_apply_in hj, Memory.write_apply hj]
    simp only [Memory.xorOf, Nat.zero_add, Nat.zero_le, hj, and_self, if_true, Nat.sub_zero,
      Nat.add_zero, Nat.add_comm j offset, hplace]
    rw [← UInt8.xor_assoc, UInt8.xor_self, UInt8.zero_xor]
  · rw [Memory.xorInto_apply_out (by omega), Memory.write_apply_out (by omega)]

end MemEC.Common.ChunkUtil

namespace MemEC.Server

open MemEC.Lib MemEC.Common CuckooHash

variable {cfg : GlobalConfig} {shape : IndexShape}

/-- Where the stored value of the object at `ptr` ends. -/
def valueEnd (cfg : GlobalConfig) (m : Memory) (ptr : ℕ) : ℕ :=
  let kv := KeyValue.deserialize cfg m ptr
  kv.value + KeyValue.payloadSize cfg kv.keySize kv.valueSize kv.splitOffset

/-- Outside the stored value of the object at `ptr`, all bytes are as they were. -/
def OnlyValue (cfg : GlobalConfig) (ptr : ℕ) (m m' : Memory) : Prop :=
  ∀ i, i < (KeyValue.deserialize cfg m ptr).value ∨ valueEnd cfg m ptr ≤ i → m' i = m i

/-- What an update brings for behind the end of the value is there already. -/
def StaysInside (cfg : GlobalConfig) (m : Memory) (ptr valueUpdateOffset : ℕ)
    (valueUpdate : List UInt8) : Prop :=
  ∀ j, (hj : j < valueUpdate.length) →
    valueEnd cfg m ptr ≤ (KeyValue.deserialize cfg m ptr).value + valueUpdateOffset + j →
    valueUpdate[j] = m ((KeyValue.deserialize cfg m ptr).value + valueUpdateOffset + j)

/-- An update is a write at its offset in the value. -/
theorem onlyValue_write_iff {m : Memory} {ptr valueUpdateOffset : ℕ} {valueUpdate : List UInt8} :
    OnlyValue cfg ptr m
        (m.write ((KeyValue.deserialize cfg m ptr).value + valueUpdateOffset) valueUpdate) ↔
      StaysInside cfg m ptr valueUpdateOffset valueUpdate := by
  constructor
  · intro h j hj hend
    rw [← Memory.write_apply (m := m) hj]
    exact h _ (.inr hend)
  · intro h i hi
    by_cases hin : (KeyValue.deserialize cfg m ptr).value + valueUpdateOffset ≤ i ∧
        i < (KeyValue.deserialize cfg m ptr).value + valueUpdateOffset + valueUpdate.length
    · obtain ⟨j, rfl⟩ := Nat.exists_eq_add_of_le hin.1
      have hj : j < valueUpdate.length := by omega
      rw [Memory.write_apply hj]
      exact h j hj (by omega)
    · exact Memory.write_apply_out (by omega)

/-- An UPDATE request that the parser accepts. -/
structure UpdateRequest where
  input : Input
  start : ℕ
  header : KeyValueUpdateHeader
  parsed : parseKeyValueUpdateHeader input true start = some header

namespace UpdateRequest

variable (req : UpdateRequest)

def key : List UInt8 := req.input.bytes.read req.header.key req.header.keySize

def valueUpdate : List UInt8 :=
  req.input.bytes.read req.header.valueUpdate req.header.valueUpdateSize

theorem header_lt : req.header.keySize < 2 ^ 8 ∧ req.header.valueUpdateOffset < 2 ^ 24 := by
  have h := req.parsed
  unfold parseKeyValueUpdateHeader at h
  dsimp only at h
  split_ifs at h
  all_goals
    rw [← Option.some.inj h]
    exact ⟨read1Byte_lt _ _, read3Bytes_lt _ _⟩

theorem length_valueUpdate : req.valueUpdate.length = req.header.valueUpdateSize :=
  Memory.length_read _ _ _

theorem length_key : req.key.length = req.header.keySize := Memory.length_read _ _ _

/-- The offset in a remapped object does not overflow. -/
theorem offset_lt : 4 + req.key.length + 3 + req.header.valueUpdateOffset < 2 ^ 32 := by
  have h := req.header_lt
  have hkey := req.length_key
  omega

end UpdateRequest

namespace ObjectServer

variable (s : ObjectServer cfg shape)

/-- The bytes of a remapped object that are updated. -/
theorem remapped_address {key : Key} {keyValue : Memory} {valueUpdateOffset : ℕ}
    (h : s.remapped.find key = some keyValue)
    (hlt : 4 + key.size + 3 + valueUpdateOffset < 2 ^ 32) :
    u32 (4 + key.size + (if key.isLarge then 3 else 0) + valueUpdateOffset) =
      (KeyValue.deserialize cfg keyValue 0).value + valueUpdateOffset := by
  have hown := s.key_remapped key keyValue h
  have hsize : (KeyValue.key cfg keyValue 0).size = key.size := congrArg Key.Ident.size hown
  have hlarge : (KeyValue.key cfg keyValue 0).isLarge = key.isLarge :=
    congrArg Key.Ident.isLarge hown
  rw [KeyValue.deserialize_value, hsize, hlarge, Key.extent, Nat.zero_add, Nat.add_assoc 4]
  refine u32_eq ?_
  split_ifs <;> omega

/-- `RemappedBuffer::update`. -/
def updateRemapped (key : Key) (valueUpdateOffset : ℕ) (valueUpdate : List UInt8)
    (hlt : 4 + key.size + 3 + valueUpdateOffset < 2 ^ 32) : Option (ObjectServer cfg shape) :=
  match hfind : s.remapped.find key with
  | none => none
  | some keyValue =>
    let offset := u32 (4 + key.size + (if key.isLarge then 3 else 0) + valueUpdateOffset)
    some { s with
      remapped := s.remapped.assign key (keyValue.write offset valueUpdate)
      key_remapped := by
        intro k kv hk
        rw [KeyMap.find_assign] at hk
        split_ifs at hk with hident
        · obtain rfl := Option.some.inj hk
          rw [KeyValue.key_congr, s.key_remapped key keyValue hfind, hident]
          intro i _ hi
          have hoff := s.remapped_address hfind hlt
          rw [KeyValue.deserialize_value] at hoff
          exact Memory.write_apply_out (.inl (by omega))
        · exact s.key_remapped k kv hk }

/-- What is handed on for a remapped object. Without parity servers, the response is not
dispatched. -/
def remappedEvent (req : UpdateRequest) : Option ObjectServerEvent :=
  if s.parityChunkCount = 0 then none
  else some (.remappedUpdate req.key req.header.valueUpdateOffset req.valueUpdate)

/-- What `handleUpdateRequest` does with an object in a chunk. -/
def updateChunk (req : UpdateRequest) (ptr : ℕ) : ObjectServer cfg shape × ModifyChunk :=
  let kv := KeyValue.deserialize cfg s.m ptr
  let isLarge := LargeObjectUtil.isLarge cfg kv.keySize kv.valueSize
  let chunk := (s.getChunk ptr).1
  let offset := u32 ((s.getChunk ptr).2 + 4 + kv.keySize + req.header.valueUpdateOffset +
    if isLarge then 3 else 0)
  let updated := ChunkUtil.computeDelta s.m req.valueUpdate (chunk + 8 + offset)
    req.header.valueUpdateSize true
  (s.setMemory updated.2,
    { key := .ofMemory req.input.bytes req.header.key kv.keySize isLarge
      chunk, offset
      delta := updated.1
      deltaSize := req.header.valueUpdateSize
      valueUpdateOffset := req.header.valueUpdateOffset
      isSealed := !s.buffered chunk
      isUpdate := true })

/-- `handleUpdateRequest`. -/
def handleUpdateRequest (req : UpdateRequest) :
    ObjectServer cfg shape × Option ObjectServerEvent :=
  match Map.lookup cfg s.m s.keys req.key with
  | some ptr =>
    let (s', request) := s.updateChunk req ptr
    (s', some (if s.parityChunkCount = 0 then .resUpdate true
      else .sendModifyChunkRequest request))
  | none =>
    match s.updateRemapped (.plain req.key) req.header.valueUpdateOffset req.valueUpdate
        req.offset_lt with
    | some s' => (s', s.remappedEvent req)
    | none =>
      match (if h : 3 < req.key.length then
          s.updateRemapped (splitKey req.key h.le) req.header.valueUpdateOffset req.valueUpdate
            (by have := req.offset_lt; simp only [splitKey]; omega)
        else none) with
      | some s' => (s', s.remappedEvent req)
      | none => (s, some (.resUpdate false))

variable {s} {req : UpdateRequest} {ptr : ℕ}

/-- The address of the bytes that are updated. -/
theorem updated_address (h : s.keys.buckets.Has ptr) :
    (s.getChunk ptr).1 + 8 + u32 ((s.getChunk ptr).2 + 4 +
        (KeyValue.deserialize cfg s.m ptr).keySize + req.header.valueUpdateOffset +
        if LargeObjectUtil.isLarge cfg (KeyValue.deserialize cfg s.m ptr).keySize
          (KeyValue.deserialize cfg s.m ptr).valueSize then 3 else 0) =
      (KeyValue.deserialize cfg s.m ptr).value + req.header.valueUpdateOffset := by
  obtain ⟨hptr, hlt⟩ := s.getChunk_add h
  have hc := cfg.chunkSize_le
  have hoff := req.header_lt.2
  have hkey : (KeyValue.deserialize cfg s.m ptr).keySize < 256 := by
    rw [KeyValue.deserialize_keySize]
    exact UInt8.toNat_lt _
  have hvalue : (KeyValue.deserialize cfg s.m ptr).value =
      ptr + 4 + Key.extent (KeyValue.deserialize cfg s.m ptr).keySize
        (LargeObjectUtil.isLarge cfg (KeyValue.deserialize cfg s.m ptr).keySize
          (KeyValue.deserialize cfg s.m ptr).valueSize) := KeyValue.deserialize_value cfg s.m ptr
  rw [hvalue, Key.extent]
  split_ifs
  · rw [u32_eq (by omega)]
    omega
  · rw [u32_eq (by omega)]
    omega

theorem updateChunk_describes :
    (s.updateChunk req ptr).2.Describes s.m (s.updateChunk req ptr).1.m := rfl

theorem updateChunk_remapped : (s.updateChunk req ptr).1.remapped = s.remapped :=
  s.setMemory_remapped _

theorem updateChunk_m (h : s.keys.buckets.Has ptr) : (s.updateChunk req ptr).1.m = s.m.write
    ((KeyValue.deserialize cfg s.m ptr).value + req.header.valueUpdateOffset) req.valueUpdate := by
  unfold updateChunk
  dsimp only
  rw [setMemory_m, updated_address h, ← req.length_valueUpdate]
  exact ChunkUtil.computeDelta_eq_write _ _ _

theorem handleUpdateRequest_of_some (h : Map.lookup cfg s.m s.keys req.key = some ptr) :
    s.handleUpdateRequest req = ((s.updateChunk req ptr).1,
      some (if s.parityChunkCount = 0 then .resUpdate true
        else .sendModifyChunkRequest (s.updateChunk req ptr).2)) := by
  rw [handleUpdateRequest, h]

/-- The change that is sent to the parity servers is the one that was made. -/
def Sends (s : ObjectServer cfg shape) (req : UpdateRequest) : Prop :=
  ∃ request, (s.handleUpdateRequest req).2 = some (.sendModifyChunkRequest request) ∧
    request.Describes s.m (s.handleUpdateRequest req).1.m

theorem sends_of_some (h : Map.lookup cfg s.m s.keys req.key = some ptr)
    (hparity : s.parityChunkCount ≠ 0) : s.Sends req := by
  rw [Sends, handleUpdateRequest_of_some h, if_neg hparity]
  exact ⟨_, rfl, updateChunk_describes⟩

/-- All objects in the remapped buffer are there still, and an update of one changes its value
as one of an object in a chunk does. -/
def UpdatesRemapped (s s' : ObjectServer cfg shape) (valueUpdateOffset : ℕ)
    (valueUpdate : List UInt8) : Prop :=
  ∀ key keyValue, s.remapped.find key = some keyValue → ∃ keyValue',
    s'.remapped.find key = some keyValue' ∧ (keyValue' = keyValue ∨
      (OnlyValue cfg 0 keyValue keyValue' ↔
        StaysInside cfg keyValue 0 valueUpdateOffset valueUpdate))

theorem of_updateRemapped {key : Key} {valueUpdateOffset : ℕ} {valueUpdate : List UInt8}
    {hlt : 4 + key.size + 3 + valueUpdateOffset < 2 ^ 32} {s' : ObjectServer cfg shape}
    (h : s.updateRemapped key valueUpdateOffset valueUpdate hlt = some s') :
    s'.m = s.m ∧ s.UpdatesRemapped s' valueUpdateOffset valueUpdate := by
  unfold updateRemapped at h
  split at h
  · cases h
  · next old hfind =>
    obtain rfl := Option.some.inj h
    refine ⟨rfl, fun k keyValue hk => ?_⟩
    dsimp only
    rw [KeyMap.find_assign]
    by_cases hident : k.ident = key.ident
    · rw [KeyMap.find_congr _ hident, hfind] at hk
      obtain rfl := Option.some.inj hk
      rw [if_pos hident, s.remapped_address hfind hlt]
      exact ⟨_, rfl, .inr onlyValue_write_iff⟩
    · rw [if_neg hident]
      exact ⟨keyValue, hk, .inl rfl⟩

/-- A request for an object that is in no chunk changes no chunk. -/
theorem handleUpdateRequest_of_none (h : Map.lookup cfg s.m s.keys req.key = none) :
    (s.handleUpdateRequest req).1.m = s.m ∧ s.UpdatesRemapped (s.handleUpdateRequest req).1
      req.header.valueUpdateOffset req.valueUpdate := by
  unfold handleUpdateRequest
  rw [h]
  dsimp only
  split
  · next hs => exact of_updateRemapped hs
  · split
    · next hs =>
      split_ifs at hs
      exact of_updateRemapped hs
    · exact ⟨rfl, fun _ keyValue hk => ⟨keyValue, hk, .inl rfl⟩⟩

/-- What an update does. An object in a chunk is changed in its value alone exactly when the update
stays inside the value; the parity servers get the change that was made either way. -/
theorem handleUpdateRequest_spec (s : ObjectServer cfg shape) (req : UpdateRequest) :
    (∀ ptr, Map.lookup cfg s.m s.keys req.key = some ptr →
      (OnlyValue cfg ptr s.m (s.handleUpdateRequest req).1.m ↔
        StaysInside cfg s.m ptr req.header.valueUpdateOffset req.valueUpdate) ∧
      (s.parityChunkCount ≠ 0 → s.Sends req)) ∧
    (Map.lookup cfg s.m s.keys req.key = none → (s.handleUpdateRequest req).1.m = s.m) ∧
    s.UpdatesRemapped (s.handleUpdateRequest req).1 req.header.valueUpdateOffset
      req.valueUpdate := by
  refine ⟨fun ptr hptr => ⟨?_, sends_of_some hptr⟩, fun h => (handleUpdateRequest_of_none h).1, ?_⟩
  · rw [handleUpdateRequest_of_some hptr, updateChunk_m (Map.has_of_lookup hptr)]
    exact onlyValue_write_iff
  · cases h : Map.lookup cfg s.m s.keys req.key with
    | none => exact (handleUpdateRequest_of_none h).2
    | some ptr =>
      intro key keyValue hk
      refine ⟨keyValue, ?_, .inl rfl⟩
      rw [handleUpdateRequest_of_some h]
      dsimp only
      rwa [updateChunk_remapped]

/-- A chunk with two objects of six bytes, the first of which is in the key map. -/
def twoObjects : ObjectServer .smallest .default where
  m := Memory.place 40 [1, 0, 0, 1, 126, 1, 1, 0, 0, 1, 127, 2]
  keys := { CuckooHash.init IndexShape.default.toTableShape with
    buckets := fun a =>
      if a.1 = IndexShape.default.bucket₁ (Key.plain [126]).hashValue ∧ a.2.val = 0 then 40
      else 0 }
  startAddress := 32
  buffered := fun _ => true
  parityChunkCount := 1
  remapped := ∅
  in_chunk := by
    rintro ptr ⟨hne, a, rfl⟩
    dsimp only at hne ⊢
    split_ifs at hne ⊢
    · decide
    · exact absurd rfl hne
  key_remapped := key_of_find_empty

/-- A request to update the byte behind the value of the first object. -/
def updateBehind : UpdateRequest where
  input := ⟨Memory.place 0 [1, 0, 0, 1, 0, 0, 1, 126, 9], 9⟩
  start := 0
  header := ⟨1, 1, 1, 7, 8⟩
  parsed := by decide +kernel

/-- It makes the second object one with a key of nine bytes. -/
theorem not_onlyValue_of_updateBehind : ¬∀ (cfg : GlobalConfig) (shape : IndexShape)
    (s : ObjectServer cfg shape) (req : UpdateRequest) (ptr : ℕ),
    Map.lookup cfg s.m s.keys req.key = some ptr →
      OnlyValue cfg ptr s.m (s.handleUpdateRequest req).1.m := by
  intro h
  have hlookup : Map.lookup .smallest twoObjects.m twoObjects.keys updateBehind.key = some 40 := by
    decide +kernel
  have honly := h _ _ twoObjects updateBehind 40 hlookup
  rw [handleUpdateRequest_of_some hlookup, updateChunk_m (Map.has_of_lookup hlookup)] at honly
  have hbyte := onlyValue_write_iff.mp honly 0 (by decide +kernel) (by decide +kernel)
  exact absurd hbyte (by decide +kernel)

end ObjectServer

end MemEC.Server
