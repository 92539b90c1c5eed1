import MemEC.Server.ParityChunkBufferSpec

/-!
# The parity chunk buffer with any coder

`ParityChunkBuffer::update` calls `Coding::encode` and nothing else depends on
the code, which is a parameter here. A message changes a parity chunk through
the change of a data chunk that it hands to `update`, if there is one:
`handleBy_cases` says all that a message does to the stripes.
-/

namespace MemEC.Server

open MemEC.Lib MemEC.Common KeyValue

variable {cfg : GlobalConfig}

namespace ParityChunkBuffer

section Coder

variable (encode : (ℕ → Memory) → Memory → ℕ → ℕ → ℕ → Memory) (b : ParityChunkBuffer cfg)

/-- The private `update`. -/
def updateBy (stripeId chunkId offset size : ℕ) (dataChunk : Memory)
    (isSeal isDelete backup : Bool) : Option (ParityChunkBuffer cfg) :=
  let dataChunks : ℕ → Memory := Pi.single chunkId dataChunk
  let startOff := u32 (offset + chunkId * cfg.chunkSize)
  let parityChunk := encode dataChunks 0 b.parityIndex startOff (u32 (startOff + size))
  if isDelete && !isSeal then none
  else some (b.applyDelta stripeId chunkId parityChunk isSeal backup)

/-- The public `update`. -/
def updateChunkBy (stripeId chunkId offset : ℕ) (dataDelta : List UInt8) (isDelete : Bool) :
    Option (ParityChunkBuffer cfg) :=
  b.updateBy encode stripeId chunkId offset dataDelta.length (.place offset dataDelta) false
    isDelete false

/-- `set`. -/
def setBy (buf : Memory) (header : Deserialized) (chunkId : ℕ) :
    Option (ParityChunkBuffer cfg × Bool) :=
  let isLarge := LargeObjectUtil.isLarge cfg header.keySize header.valueSize
  let key := Key.ofMemory buf header.key header.keySize isLarge
  let keyStr := buf.read header.key header.keySize
  let valueStr := buf.read header.value header.valueSize
  match b.pending.find key with
  | none =>
    let keyValue := dup cfg keyStr header.keySize valueStr header.valueSize header.splitOffset
    let (keys, inserted) := b.keys.insertNew key keyValue
    some ({ b with keys }, inserted)
  | some pendingRequest =>
    let b := { b with pending := b.pending.eraseKey key }
    match pendingRequest with
    | .prtSeal stripeId offset =>
      let dataChunk := serialize cfg 0 offset (some keyStr) header.keySize (some valueStr)
        header.valueSize header.splitOffset
      let b := { b with folded := b.folded ++ [key] }
      (b.updateBy encode stripeId chunkId offset (u32 (4 + header.keySize + header.valueSize))
        dataChunk false false true).map fun b => (b, true)
    | .prtUpdate .. => some (b, true)
    | .prtDelete => some (b, true)

/-- `seal`. -/
def sealChunkBy (request : SealRequest) : Option (ParityChunkBuffer cfg × Bool) :=
  let s := request.records.foldl (sealStep request.stripeId) ⟨b, 0, 0, true⟩
  if request.records.length = request.count then
    (s.buffer.updateBy encode request.stripeId request.chunkId 0 s.curPos s.data true false
      false).map fun b => (b, s.ret)
  else none

/-- `ServerWorker::handleSetRequest`. -/
def handleSetRequestBy (body : List UInt8) (chunkId : ℕ) : Option (ParityChunkBuffer cfg) :=
  let buf := Memory.place 0 body
  match parseKeyValueHeader cfg buf body.length with
  | none => some b
  | some header =>
    let isLarge := LargeObjectUtil.isLarge cfg header.keySize header.valueSize
    let key := Key.ofMemory buf header.key header.keySize isLarge
    if (b.findValueByKey key).isSome then some b
    else (b.setBy encode buf header chunkId).map Prod.fst

/-- `ServerWorker::handleUpdateRequest` of the server peers. -/
def handleUpdateRequestBy (header : ChunkKeyValueUpdateHeader) : Option (ParityChunkBuffer cfg) :=
  let (b, ret) := b.updateKeyValue header.key header.valueUpdateOffset header.valueUpdate
  if ret then some b
  else
    let chunk := (b.chunks.lookup header.stripeId).map ParityChunkWrapper.chunk
    let sealIndicator := (b.getWrapper header.stripeId).pending.map (!·)
    let b := { b with
      chunks := b.chunks.insert header.stripeId (b.getWrapper header.stripeId)
      getChunkBuffer := b.getChunkBuffer.insertBackup ⟨b.listId, header.stripeId, b.chunkId⟩ chunk
        sealIndicator }
    b.updateChunkBy encode header.stripeId header.chunkId header.chunkUpdateOffset
      header.valueUpdate false

/-- What the server does with a message. -/
def handleBy : Message → Option (ParityChunkBuffer cfg)
  | .set body chunkId => b.handleSetRequestBy encode body chunkId
  | .update header => b.handleUpdateRequestBy encode header
  | .delete key => some (b.deleteKey (.plain key)).1
  | .sealChunk request => (b.sealChunkBy encode request).map Prod.fst

end Coder

variable (b : ParityChunkBuffer cfg)

/-! ## Changes of data chunks -/

/-- A change of a data chunk, as it is handed to `update`. -/
structure ChunkDelta where
  stripeId : ℕ
  chunkId : ℕ
  dataChunk : Memory

/-- The change that a message brings. -/
def deltaOf : Message → Option ChunkDelta
  | .set body chunkId =>
    let buf := Memory.place 0 body
    match parseKeyValueHeader cfg buf body.length with
    | none => none
    | some header =>
      let isLarge := LargeObjectUtil.isLarge cfg header.keySize header.valueSize
      let key := Key.ofMemory buf header.key header.keySize isLarge
      if (b.findValueByKey key).isSome then none
      else
        match b.pending.find key with
        | some (.prtSeal stripeId offset) =>
          let keyStr := buf.read header.key header.keySize
          let valueStr := buf.read header.value header.valueSize
          some ⟨stripeId, chunkId, serialize cfg 0 offset (some keyStr) header.keySize
            (some valueStr) header.valueSize header.splitOffset⟩
        | _ => none
  | .update header =>
    if (b.keys.find header.key).isSome then none
    else some ⟨header.stripeId, header.chunkId,
      .place header.chunkUpdateOffset header.valueUpdate⟩
  | .delete _ => none
  | .sealChunk request => some ⟨request.stripeId, request.chunkId,
      (request.records.foldl (sealStep request.stripeId) ⟨b, 0, 0, true⟩).data⟩

/-- What an update does to the stripes before it applies its delta. -/
def prepared : Message → ParityChunkBuffer cfg
  | .update header =>
    { b with
      chunks := b.chunks.insert header.stripeId (b.getWrapper header.stripeId)
      getChunkBuffer := b.getChunkBuffer.insertBackup ⟨b.listId, header.stripeId, b.chunkId⟩
        ((b.chunks.lookup header.stripeId).map ParityChunkWrapper.chunk)
        ((b.getWrapper header.stripeId).pending.map (!·)) }
  | _ => b

end ParityChunkBuffer

/-- The message seals a data chunk. -/
def Message.seals : Message → Bool
  | .sealChunk _ => true
  | _ => false

/-- The message hands over the buffer of backups. -/
def Message.backsUp : Message → Bool
  | .set .. => true
  | _ => false

namespace ParityChunkBuffer

/-- The two buffers hold the same parity chunks and backups. -/
structure SameStripes (b b' : ParityChunkBuffer cfg) : Prop where
  coding : b'.coding = b.coding
  listId : b'.listId = b.listId
  chunkId : b'.chunkId = b.chunkId
  chunks : b'.chunks = b.chunks
  getChunkBuffer : b'.getChunkBuffer = b.getChunkBuffer

namespace SameStripes

variable {b b' : ParityChunkBuffer cfg}

theorem parityIndex (h : SameStripes b b') : b'.parityIndex = b.parityIndex := by
  rw [ParityChunkBuffer.parityIndex, ParityChunkBuffer.parityIndex, h.chunkId, h.coding]

theorem getWrapper (h : SameStripes b b') (stripeId : ℕ) :
    b'.getWrapper stripeId = b.getWrapper stripeId := by
  rw [ParityChunkBuffer.getWrapper, ParityChunkBuffer.getWrapper, h.chunks, h.coding]

theorem applyDelta (h : SameStripes b b') (stripeId chunkId : ℕ) (parityChunk : Memory)
    (isSeal backup : Bool) :
    SameStripes (b.applyDelta stripeId chunkId parityChunk isSeal backup)
      (b'.applyDelta stripeId chunkId parityChunk isSeal backup) := by
  refine ⟨h.coding, h.listId, h.chunkId, ?_, ?_⟩
  · simp only [ParityChunkBuffer.applyDelta, h.getWrapper, h.chunks]
  · simp only [ParityChunkBuffer.applyDelta, h.getChunkBuffer, h.listId, h.chunkId]

end SameStripes

/-- The loop in `seal` leaves the stripes as they are. -/
theorem sealSteps_same (stripeId : ℕ) (records : List SealRecord) (s : SealLoop cfg) :
    SameStripes s.buffer (records.foldl (sealStep stripeId) s).buffer := by
  induction records generalizing s with
  | nil => exact ⟨rfl, rfl, rfl, rfl, rfl⟩
  | cons r records ih =>
    obtain ⟨hcoding, hlist, hchunk, hchunks, hbackups⟩ := ih (sealStep stripeId s r)
    have hstep : SameStripes s.buffer (sealStep stripeId s r).buffer := by
      cases h : s.buffer.keys.find r.key with
      | none => constructor <;> simp only [sealStep, h]
      | some keyValue => constructor <;> simp only [sealStep, h]
    constructor
    · exact hcoding.trans hstep.coding
    · exact hlist.trans hstep.listId
    · exact hchunk.trans hstep.chunkId
    · exact hchunks.trans hstep.chunks
    · exact hbackups.trans hstep.getChunkBuffer

variable (b : ParityChunkBuffer cfg)

theorem updateKeyValue_coding (key : Key) (offset : ℕ) (valueUpdate : List UInt8) :
    (b.updateKeyValue key offset valueUpdate).1.coding = b.coding := by
  cases h : b.keys.find key with
  | none => simp only [updateKeyValue, h]
  | some keyValue => simp only [updateKeyValue, h]

theorem set_eq_setBy (buf : Memory) (header : Deserialized) (chunkId : ℕ) :
    b.set buf header chunkId = b.setBy b.coding.encode buf header chunkId := by
  simp only [set, setBy]
  cases b.pending.find (Key.ofMemory buf header.key header.keySize
      (LargeObjectUtil.isLarge cfg header.keySize header.valueSize)) with
  | none => rfl
  | some pendingRequest => cases pendingRequest <;> rfl

/-- The buffer of the code is the one with the coder of the code. -/
theorem handle_eq_handleBy (m : Message) : b.handle m = b.handleBy b.coding.encode m := by
  cases m with
  | set body chunkId =>
    cases hparse : parseKeyValueHeader cfg (.place 0 body) body.length <;>
      simp only [handle, handleBy, handleSetRequest, handleSetRequestBy, hparse, set_eq_setBy]
  | update header =>
    have hcoding :=
      b.updateKeyValue_coding header.key header.valueUpdateOffset header.valueUpdate
    simp only [handle, handleBy, handleUpdateRequest, handleUpdateRequestBy, ← hcoding]
    rfl
  | delete key => rfl
  | sealChunk request =>
    have hcoding := (sealSteps_same request.stripeId request.records ⟨b, 0, 0, true⟩).coding
    simp only [handle, handleBy, sealChunk, sealChunkBy]
    rw [← hcoding]
    rfl

/-! ## What a message does -/

section Cases

variable {encode : (ℕ → Memory) → Memory → ℕ → ℕ → ℕ → Memory} {b b' : ParityChunkBuffer cfg}

theorem updateBy_eq {stripeId chunkId offset size : ℕ} {dataChunk : Memory}
    {isSeal isDelete backup : Bool}
    (h : b.updateBy encode stripeId chunkId offset size dataChunk isSeal isDelete backup = some b') :
    ∃ startOff endOff, b' = b.applyDelta stripeId chunkId
      (encode (Pi.single chunkId dataChunk) 0 b.parityIndex startOff endOff) isSeal backup := by
  unfold updateBy at h
  dsimp only at h
  split_ifs at h
  exact ⟨_, _, (Option.some.inj h).symm⟩

theorem getWrapper_chunk (b : ParityChunkBuffer cfg) (stripeId : ℕ) :
    (b.getWrapper stripeId).chunk =
      ((b.chunks.lookup stripeId).map ParityChunkWrapper.chunk).getD 0 := by
  unfold getWrapper
  cases b.chunks.lookup stripeId <;> rfl

theorem getWrapper_prepared (b : ParityChunkBuffer cfg) (m : Message) (s : ℕ) :
    (b.prepared m).getWrapper s = b.getWrapper s := by
  cases m with
  | update header =>
    by_cases hs : s = header.stripeId
    · subst hs
      simp [prepared, getWrapper]
    · simp [prepared, getWrapper, AList.lookup_insert_ne hs]
  | set body chunkId => rfl
  | delete key => rfl
  | sealChunk request => rfl

/-- A message brings no change and leaves the stripes as they are, or its change is encoded and
applied. -/
def Applied (encode : (ℕ → Memory) → Memory → ℕ → ℕ → ℕ → Memory) (b : ParityChunkBuffer cfg)
    (m : Message) (b' : ParityChunkBuffer cfg) : Prop :=
  (b.deltaOf m = none ∧ SameStripes b b') ∨
  ∃ d startOff endOff, b.deltaOf m = some d ∧
    SameStripes ((b.prepared m).applyDelta d.stripeId d.chunkId
      (encode (Pi.single d.chunkId d.dataChunk) 0 b.parityIndex startOff endOff) m.seals
      m.backsUp) b'

theorem set_cases {body : List UInt8} {chunkId : ℕ}
    (h : b.handleSetRequestBy encode body chunkId = some b') :
    Applied encode b (.set body chunkId) b' := by
  unfold Applied
  simp only [handleSetRequestBy] at h
  simp only [deltaOf]
  cases hheader : parseKeyValueHeader cfg (.place 0 body) body.length with
  | none =>
    rw [hheader] at h
    cases h
    exact Or.inl ⟨rfl, rfl, rfl, rfl, rfl, rfl⟩
  | some header =>
    rw [hheader] at h
    simp only [setBy] at h ⊢
    by_cases hfind : (b.findValueByKey (Key.ofMemory (.place 0 body) header.key header.keySize
        (LargeObjectUtil.isLarge cfg header.keySize header.valueSize))).isSome = true
    · rw [if_pos hfind] at h ⊢
      cases h
      exact Or.inl ⟨rfl, rfl, rfl, rfl, rfl, rfl⟩
    · rw [if_neg hfind] at h ⊢
      cases hpending : b.pending.find (Key.ofMemory (.place 0 body) header.key header.keySize
          (LargeObjectUtil.isLarge cfg header.keySize header.valueSize)) with
      | none =>
        rw [hpending] at h
        cases h
        exact Or.inl ⟨rfl, rfl, rfl, rfl, rfl, rfl⟩
      | some pendingRequest =>
        rw [hpending] at h
        cases pendingRequest with
        | prtSeal stripeId offset =>
          simp only [Option.map_map] at h
          obtain ⟨b₁, hb₁, rfl⟩ := Option.map_eq_some_iff.mp h
          obtain ⟨startOff, endOff, rfl⟩ := updateBy_eq hb₁
          exact Or.inr ⟨_, startOff, endOff, rfl, rfl, rfl, rfl, rfl, rfl⟩
        | prtUpdate offset length buf =>
          cases h
          exact Or.inl ⟨rfl, rfl, rfl, rfl, rfl, rfl⟩
        | prtDelete =>
          cases h
          exact Or.inl ⟨rfl, rfl, rfl, rfl, rfl, rfl⟩

/-- What a message does to the stripes. -/
theorem handleBy_cases {m : Message} (h : b.handleBy encode m = some b') :
    Applied encode b m b' := by
  cases m with
  | set body chunkId => exact set_cases h
  | update header =>
    unfold Applied
    simp only [handleBy, handleUpdateRequestBy] at h
    simp only [deltaOf]
    cases hfind : b.keys.find header.key with
    | some keyValue =>
      simp only [updateKeyValue, hfind, if_true] at h
      cases h
      exact Or.inl ⟨rfl, rfl, rfl, rfl, rfl, rfl⟩
    | none =>
      simp only [updateKeyValue, hfind, Bool.false_eq_true, if_false] at h
      obtain ⟨startOff, endOff, rfl⟩ := updateBy_eq h
      exact Or.inr ⟨_, startOff, endOff, rfl, rfl, rfl, rfl, rfl, rfl⟩
  | delete key =>
    simp only [handleBy, deleteKey] at h
    cases hfind : b.keys.find (.plain key) with
    | none =>
      rw [hfind] at h
      cases h
      exact Or.inl ⟨rfl, rfl, rfl, rfl, rfl, rfl⟩
    | some keyValue =>
      rw [hfind] at h
      cases h
      exact Or.inl ⟨rfl, rfl, rfl, rfl, rfl, rfl⟩
  | sealChunk request =>
    have hsame := sealSteps_same request.stripeId request.records ⟨b, 0, 0, true⟩
    simp only [handleBy, sealChunkBy] at h
    split_ifs at h
    · simp only [Option.map_map] at h
      obtain ⟨b₁, hb₁, rfl⟩ := Option.map_eq_some_iff.mp h
      obtain ⟨startOff, endOff, rfl⟩ := updateBy_eq hb₁
      rw [hsame.parityIndex]
      exact Or.inr ⟨_, startOff, endOff, rfl, hsame.applyDelta ..⟩
    · cases h

end Cases

end ParityChunkBuffer

end MemEC.Server
