import MemEC.Common.BatchProtocol
import MemEC.Common.HeartbeatProtocol
import MemEC.Common.RecoveryProtocol

/-!
# Messages of several frames

A collection that does not fit into the send buffer is sent in frames: a
generator is called until it says that it is done. A promotion tells the backup
server of the lost chunks and, once these are all written, of the keys of the
objects that are not sealed. A batch asks for chunks, each under a request of
its own. A release names the chunks whose degraded locks are given up.

The first two generators count the bytes of the frame. The third one counts the
bytes behind the header, and compares them with the size of the buffer too.
-/

namespace MemEC.Common

open MemEC.Lib

/-! ## Generating -/

/-- What a generator returns: the frame, `isCompleted`, and what is left of its input. -/
structure SentFrame (σ : Type) where
  message : List UInt8
  isCompleted : Bool
  left : σ

/-- The loops around the generators. -/
def sendFrames {σ : Type} (generate : ℕ → σ → SentFrame σ) :
    ℕ → ℕ → σ → Option (List (List UInt8))
  | 0, _, _ => none
  | fuel + 1, call, s =>
    let frame := generate call s
    if frame.isCompleted then some [frame.message]
    else (sendFrames generate fuel (call + 1) frame.left).map (frame.message :: ·)

/-- The address and the port of a server, in network byte order. -/
structure NetworkAddr where
  addr : List UInt8
  port : List UInt8
  length_addr : addr.length = 4
  length_port : port.length = 2

/-- An entry of the vectors `requestIds` and `metadata`, which are filled together. -/
structure BatchChunk where
  requestId : ℕ
  metadata : Metadata

/-- The entry as it is written. -/
def BatchChunk.bytes (c : BatchChunk) : List UInt8 := beBytes 4 c.requestId ++ c.metadata.bytes

/-- The ids are `uint32_t`. -/
structure BatchChunk.Fits (c : BatchChunk) : Prop where
  requestId : c.requestId < 2 ^ 32
  metadata : c.metadata.Fits

/-- What follows the header of a promotion. -/
def promotePayload (server : NetworkAddr) (chunks : List Metadata) (keys : List Key) :
    List UInt8 :=
  server.addr ++ server.port ++ beBytes 4 chunks.length ++ beBytes 4 keys.length ++
    (chunks.flatMap Metadata.bytes ++ keys.flatMap keyRecord)

namespace Protocol

variable (p : Protocol) (e : Envelope)

/-- A frame with what follows its header. -/
def frame (payload : List UInt8) : List UInt8 :=
  p.generateHeader e.magic e.receiver e.opcode payload.length e.instanceId e.requestId 0 false ++
    payload

/-- `generatePromoteBackupServerHeader`, with what the two iterators have before them. The `30` is
`PROTO_HEADER_SIZE + PROTO_PROMOTE_BACKUP_SERVER_SIZE`, the `12` is `PROTO_METADATA_SIZE`, the `1`
is `PROTO_KEY_SIZE`. -/
def generatePromoteBackupServerHeader (server : NetworkAddr) (its : List Metadata × List Key) :
    SentFrame (List Metadata × List Key) :=
  let chunkCount := fit p.bufferSize (fun _ => 12) 30 its.1
  let allChunks : Bool := chunkCount = its.1.length
  let unsealedCount :=
    if allChunks then fit p.bufferSize (fun key => 1 + key.size) (30 + 12 * chunkCount) its.2
    else 0
  { message := p.frame e
      (promotePayload server (its.1.take chunkCount) (its.2.take unsealedCount))
    isCompleted := allChunks && decide (unsealedCount = its.2.length)
    left := (its.1.drop chunkCount, its.2.drop unsealedCount) }

/-- `generateBatchChunkHeader`. The `20` is `PROTO_HEADER_SIZE + PROTO_BATCH_CHUNK_SIZE`, the `16`
is `PROTO_CHUNK_SIZE + 4`. -/
def generateBatchChunkHeader (chunks : List BatchChunk) : SentFrame (List BatchChunk) :=
  let chunksCount := fit p.bufferSize (fun _ => 16) 20 chunks
  { message := p.batchMessage e chunksCount ((chunks.take chunksCount).flatMap BatchChunk.bytes)
    isCompleted := chunksCount = chunks.length
    left := chunks.drop chunksCount }

/-- `generateDegradedReleaseReqHeader`. The `12` is `PROTO_DEGRADED_RELEASE_REQ_SIZE`; the bytes are
counted from `0`. -/
def generateDegradedReleaseReqHeader (chunks : List Metadata) : SentFrame (List Metadata) :=
  let count := fit p.bufferSize (fun _ => 12) 0 chunks
  { message := p.frame e ((chunks.take count).flatMap Metadata.bytes)
    isCompleted := count = chunks.length
    left := chunks.drop count }

end Protocol

/-! ## Parsing -/

/-- `PendingRecovery::insertMetadata`. The index is a `uint32_t`. -/
def insertMetadata (m : Memory) (metadata count : ℕ) : List Metadata :=
  (List.range count).map fun i =>
    ⟨read4Bytes m (metadata + 4 * u32 (i * 3)), read4Bytes m (metadata + 4 * u32 (i * 3 + 1)),
      read4Bytes m (metadata + 4 * u32 (i * 3 + 2))⟩

/-- `key.dup( size, data )` for a key that has the size `old`, which a size of zero stands for. -/
def Key.dup (m : Memory) (data size old : ℕ) : Key :=
  Key.ofMemory m data (if size = 0 then old else size) false

/-- `PendingRecovery::insertKeys`. The key is declared in front of the loop, and `old` is its size
there. -/
def insertKeys (m : Memory) : ℕ → ℕ → ℕ → List Key
  | 0, _, _ => []
  | count + 1, keysBuf, old =>
    let key := Key.dup m (keysBuf + 1) (read1Byte m keysBuf) old
    key :: insertKeys m count (keysBuf + (1 + key.size)) key.size

/-- `BatchChunkHeader`. -/
structure BatchChunkHeader where
  count : ℕ
  chunks : ℕ

/-- `parseBatchChunkHeader`. -/
def parseBatchChunkHeader (input : Input) (offset : ℕ) : Option BatchChunkHeader :=
  if input.rest offset < 4 then none else some ⟨read4Bytes input.bytes offset, offset + 4⟩

/-- `nextChunkInBatchChunkHeader`: the `responseId`, the chunk if it is there, and the offset after
it. -/
def nextChunkInBatchChunkHeader (q : Protocol) (m : Memory) (header : BatchChunkHeader)
    (size offset : ℕ) : (ℕ × Option Metadata) × ℕ :=
  let responseId := read4Bytes m (header.chunks + offset)
  let offset := u32 (offset + 4)
  ((responseId, parseChunkHeader (q.input (some (advance m header.chunks)) size) offset),
    u32 (offset + 12))

/-- The loop of `handleReleaseDegradedLockRequest` over the chunks of a release. -/
def releasedChunks (q : Protocol) (buf : Memory) (size : ℕ) : Option (List Metadata) :=
  if size = 0 then some []
  else do
    let metadata ← parseChunkHeader (q.input (some buf) size) 0
    let chunks ← releasedChunks q (advance buf 12) (size - 12)
    return metadata :: chunks
termination_by size

namespace Protocol

/-- What `handleBackupServerPromotedMsg` inserts into the pending recovery. -/
def readPromoted (q : Protocol) (old : ℕ) (r : Input) : Option (List (Metadata ⊕ Key)) := do
  let input ← q.payload r
  let header ← parsePromoteBackupServerHeader input true 0
  let (metadata, keys) ← header.arrays
  return (insertMetadata input.bytes metadata header.chunkCount).map Sum.inl ++
    (insertKeys input.bytes header.unsealedCount keys old).map Sum.inr

/-- The requests that `handleBatchChunksRequest` takes from a batch. -/
def readBatchChunks (q : Protocol) (r : Input) : Option (List (ℕ × Option Metadata)) := do
  let input ← q.payload r
  let header ← parseBatchChunkHeader input 0
  return iterate (nextChunkInBatchChunkHeader q input.bytes header input.size) header.count 0

/-- The chunks that `handleReleaseDegradedLockRequest` takes from a release. -/
def readReleased (q : Protocol) (r : Input) : Option (List Metadata) := do
  let header ← q.parseHeader (some r.bytes) r.size
  releasedChunks q (advance r.bytes 16) header.length

end Protocol

/-! ## What is read -/

section Reading

variable {m : Memory} {ptr old : ℕ} {chunks : List Metadata} {keys : List Key}

theorem readMetadata_eq {md : Metadata} (h : m.Holds ptr md.bytes) (hmd : md.Fits) :
    readMetadata m ptr = md := by
  simp only [Metadata.bytes, Memory.holds_append, List.length_append, length_beBytes] at h
  obtain ⟨⟨h0, h4⟩, h8⟩ := h
  rw [readMetadata, read4Bytes_eq h0 hmd.listId, read4Bytes_eq h4 hmd.stripeId,
    read4Bytes_eq h8 hmd.chunkId]

theorem insertMetadata_eq (h : m.Holds ptr (chunks.flatMap Metadata.bytes))
    (hchunks : ∀ md ∈ chunks, md.Fits) (hlt : 12 * chunks.length < 2 ^ 32) :
    insertMetadata m ptr chunks.length = chunks := by
  rw [Memory.holds_flatMap Metadata.length_bytes] at h
  refine List.ext_getElem (by simp [insertMetadata]) fun i h1 h2 => ?_
  have hread := readMetadata_eq (h i h2) (hchunks _ (List.getElem_mem h2))
  have hword : ∀ j < 3, ptr + 4 * u32 (i * 3 + j) = ptr + 12 * i + 4 * j := by
    intro j hj
    rw [u32_eq (by omega)]
    ring
  have h0 : ptr + 4 * u32 (i * 3) = ptr + 12 * i := hword 0 (by norm_num)
  simp only [insertMetadata, List.getElem_map, List.getElem_range]
  rw [h0, hword 1 (by norm_num), hword 2 (by norm_num)]
  exact hread

theorem insertKeys_eq (h : m.Holds ptr (keys.flatMap keyRecord))
    (hkeys : ∀ key ∈ keys, key.isLarge = false ∧ 0 < key.size ∧ key.size < 2 ^ 8) :
    insertKeys m keys.length ptr old = keys := by
  induction keys generalizing ptr old with
  | nil => rfl
  | cons key keys ih =>
    obtain ⟨hplain, hpos, hlt⟩ := hkeys key List.mem_cons_self
    rw [List.flatMap_cons, Memory.holds_append, length_keyRecord] at h
    obtain ⟨hrecord, hrest⟩ := h
    rw [keyRecord, Memory.holds_append, length_beBytes, take_data hplain] at hrecord
    have hdup : Key.dup m (ptr + 1) (read1Byte m ptr) old = key := by
      rw [read1Byte_eq hrecord.1 hlt, Key.dup, if_neg hpos.ne', ← hplain]
      exact Key.ofMemory_eq hrecord.2
    rw [List.length_cons, insertKeys, hdup]
    exact congrArg (key :: ·) (ih hrest fun k hk => hkeys k (List.mem_cons_of_mem _ hk))

/-- No key is taken for that of a split, and none is empty if the key in front of the loop is
not. -/
theorem of_mem_insertKeys {count : ℕ} {key : Key} (h : key ∈ insertKeys m count ptr old)
    (hold : 0 < old) : key.isLarge = false ∧ 0 < key.size := by
  induction count generalizing ptr old with
  | zero => exact absurd h List.not_mem_nil
  | succ count ih =>
    have hsize : 0 < (Key.dup m (ptr + 1) (read1Byte m ptr) old).size := by
      change 0 < if read1Byte m ptr = 0 then old else read1Byte m ptr
      split_ifs <;> omega
    rw [insertKeys] at h
    rcases List.mem_cons.mp h with rfl | h
    · exact ⟨rfl, hsize⟩
    · exact ih h hsize

theorem releasedChunks_eq (q : Protocol) {buf : Memory}
    (h : buf.Holds 0 (chunks.flatMap Metadata.bytes)) (hchunks : ∀ md ∈ chunks, md.Fits)
    (hlt : 12 * chunks.length < 2 ^ 64) :
    releasedChunks q buf (12 * chunks.length) = some chunks := by
  induction chunks generalizing buf with
  | nil =>
    rw [releasedChunks]
    rfl
  | cons md chunks ih =>
    rw [List.flatMap_cons, Memory.holds_append, Metadata.length_bytes, Nat.zero_add] at h
    rw [List.length_cons] at hlt
    have hsize : 12 * (chunks.length + 1) - 12 = 12 * chunks.length := by omega
    have hrest := ih (holds_advance.mpr h.2) (fun md hmd => hchunks md (List.mem_cons_of_mem _ hmd))
      (by omega)
    have hparse : parseChunkHeader (q.input (some buf) (12 * (chunks.length + 1))) 0 = some md := by
      rw [Protocol.input_some q buf (by omega), parseChunkHeader,
        Input.rest_eq hlt (Nat.zero_le _), if_neg (by dsimp only; omega)]
      exact congrArg some (readMetadata_eq h.1 (hchunks md List.mem_cons_self))
    rw [List.length_cons, releasedChunks, if_neg (by omega), hparse, hsize, hrest]
    rfl

section Frames

variable {p q : Protocol} {e : Protocol.Envelope} {r : Input}

theorem length_frame (payload : List UInt8) : (p.frame e payload).length = 16 + payload.length := by
  rw [Protocol.frame, List.length_append, Protocol.length_generateHeader]

theorem BatchChunk.length_bytes (c : BatchChunk) : c.bytes.length = 16 := by
  simp [BatchChunk.bytes]

theorem length_promotePayload (server : NetworkAddr) (chunks : List Metadata) (keys : List Key) :
    (promotePayload server chunks keys).length =
      14 + (12 * chunks.length + (keys.flatMap keyRecord).length) := by
  simp only [promotePayload, List.length_append, server.length_addr, server.length_port,
    length_beBytes, length_flatMap_metadata]

/-- A promotion is read if none of its keys is that of a split, and none is empty. -/
theorem readPromoted_eq {server : NetworkAddr}
    (hr : Received (p.frame e (promotePayload server chunks keys)) r) (he : e.Fits q)
    (hchunks : ∀ md ∈ chunks, md.Fits)
    (hkeys : ∀ key ∈ keys, key.isLarge = false ∧ 0 < key.size ∧ key.size < 2 ^ 8)
    (hlt : (promotePayload server chunks keys).length < 2 ^ 32) :
    q.readPromoted old r = some (chunks.map Sum.inl ++ keys.map Sum.inr) := by
  have hlen := length_promotePayload server chunks keys
  have hcount : keys.length ≤ (keys.flatMap keyRecord).length :=
    length_le_length_flatMap fun key _ => by
      rw [length_keyRecord]
      omega
  obtain ⟨hpayload, hbytes⟩ := payload_of_received hr he (by omega) hlt
  simp only [promotePayload, Memory.holds_append, List.length_append, server.length_addr,
    server.length_port, length_beBytes, length_flatMap_metadata, Nat.zero_add] at hbytes
  obtain ⟨⟨⟨-, hchunkCount⟩, hunsealedCount⟩, hmetadata, hrecords⟩ := hbytes
  have hread := insertMetadata_eq hmetadata hchunks (by omega)
  have hinsert : insertKeys (advance r.bytes 16) keys.length (14 + 12 * chunks.length) old = keys :=
    insertKeys_eq hrecords hkeys
  rw [Protocol.readPromoted, hpayload, Option.bind_eq_bind, Option.bind_some,
    parsePromoteBackupServerHeader, Input.rest_eq (by dsimp only; omega) (Nat.zero_le _),
    if_neg (by dsimp only; omega)]
  simp only [Nat.zero_add, if_true, Option.bind_eq_bind, Option.bind_some,
    read4Bytes_eq hchunkCount (by omega), read4Bytes_eq hunsealedCount (by omega), hread, hinsert]
  rfl

/-- What is read of a promotion, whatever it is. -/
theorem of_mem_readPromoted {l : List (Metadata ⊕ Key)} {key : Key}
    (h : q.readPromoted old r = some l) (hkey : Sum.inr key ∈ l) (hold : 0 < old) :
    key.isLarge = false ∧ 0 < key.size := by
  simp only [Protocol.readPromoted, Option.bind_eq_bind, Option.bind_eq_some_iff, Option.pure_def,
    Option.some.injEq] at h
  obtain ⟨input, -, header, -, arrays, -, rfl⟩ := h
  rcases List.mem_append.mp hkey with hmem | hmem
  · obtain ⟨md, -, heq⟩ := List.mem_map.mp hmem
    cases heq
  · obtain ⟨k, hk, heq⟩ := List.mem_map.mp hmem
    obtain rfl := Sum.inr.inj heq
    exact of_mem_insertKeys hk hold

theorem readBatchChunks_eq {chunks : List BatchChunk}
    (hr : Received (p.batchMessage e chunks.length (chunks.flatMap BatchChunk.bytes)) r)
    (he : e.Fits q) (hchunks : ∀ c ∈ chunks, c.Fits)
    (hlt : 4 + (chunks.flatMap BatchChunk.bytes).length < 2 ^ 32) :
    q.readBatchChunks r = some (chunks.map fun c => (c.requestId, some c.metadata)) := by
  obtain ⟨hpayload, hcount, hrecords⟩ := payload_eq hr he hlt
  have hlen : chunks.length ≤ (chunks.flatMap BatchChunk.bytes).length :=
    length_le_length_flatMap fun c _ => by
      rw [BatchChunk.length_bytes]
      omega
  set m := advance r.bytes 16
  set size := 4 + (chunks.flatMap BatchChunk.bytes).length with hsize
  have hnext : ∀ c ∈ chunks, ∀ offset, m.Holds (4 + offset) c.bytes →
      offset + c.bytes.length < size - 3 →
      id (nextChunkInBatchChunkHeader q m ⟨chunks.length, 4⟩ size offset).1 =
          (c.requestId, some c.metadata) ∧
        (nextChunkInBatchChunkHeader q m ⟨chunks.length, 4⟩ size offset).2 =
          offset + c.bytes.length := by
    intro c hc offset hbytes hbound
    rw [BatchChunk.length_bytes] at hbound ⊢
    rw [BatchChunk.bytes, Memory.holds_append, length_beBytes] at hbytes
    have hparse : parseChunkHeader ⟨advance m 4, size⟩ (offset + 4) = some c.metadata := by
      rw [parseChunkHeader, Input.rest_eq (by dsimp only; omega) (by dsimp only; omega),
        if_neg (by dsimp only; omega)]
      have hholds := holds_advance.mpr (Nat.add_assoc 4 offset 4 ▸ hbytes.2)
      exact congrArg some (readMetadata_eq hholds (hchunks c hc).metadata)
    simp only [nextChunkInBatchChunkHeader, id_eq, u32_eq (by omega : offset + 4 < 2 ^ 32),
      Protocol.input_some q _ (by omega : 0 < size), hparse,
      read4Bytes_eq hbytes.1 (hchunks c hc).requestId, true_and]
    exact u32_eq (by omega)
  have hread := iterate_eq _ id hnext hrecords
    (by omega : 0 + (chunks.flatMap BatchChunk.bytes).length < size - 3)
  rw [List.map_id] at hread
  rw [Protocol.readBatchChunks, hpayload, Option.bind_eq_bind, Option.bind_some,
    parseBatchChunkHeader, if_neg (rest_payload hlt)]
  dsimp only
  rw [read4Bytes_eq hcount (by omega)]
  exact congrArg some hread

theorem readReleased_eq (hr : Received (p.frame e (chunks.flatMap Metadata.bytes)) r)
    (he : e.Fits q) (hchunks : ∀ md ∈ chunks, md.Fits) (hlt : 12 * chunks.length < 2 ^ 32) :
    q.readReleased r = some chunks := by
  obtain ⟨hbytes, hsize⟩ := hr
  rw [length_frame] at hsize
  have hlen := length_flatMap_metadata chunks
  obtain ⟨hparse, hpayload⟩ := Protocol.receive_eq hbytes he (by omega) (by norm_num)
  rw [Protocol.readReleased, hsize, hparse, Option.bind_eq_bind, Option.bind_some,
    Protocol.Envelope.header]
  dsimp only
  rw [hlen]
  exact releasedChunks_eq q hpayload hchunks (by omega)

end Frames

end Reading

/-! ## Frame after frame -/

/-- A generator puts items into a frame behind `start` bytes, as many as there is room for. -/
structure Packs {σ ι : Type} (generate : ℕ → σ → SentFrame σ) (items : σ → List ι)
    (capacity : ℕ) (size : ι → ℕ) (start : ℕ) (encode : ℕ → List ι → List UInt8) : Prop where
  message : ∀ call s, (generate call s).message =
    encode call ((items s).take (fit capacity size start (items s)))
  isCompleted : ∀ call s, (generate call s).isCompleted =
    ((items s).drop (fit capacity size start (items s))).isEmpty
  left : ∀ call s, items (generate call s).left =
    (items s).drop (fit capacity size start (items s))

/-- The elements arrive: the loop around the generator ends, no frame is longer than the buffer, and
what is read of the frames is the elements, each once. -/
def Delivered {σ α : Type} (generate : ℕ → σ → SentFrame σ) (bufferSize : ℕ)
    (read : Input → Option (List α)) (s : σ) (elements : List α) : Prop :=
  ∃ fuel msgs, sendFrames generate fuel 0 s = some msgs ∧
    (∀ msg ∈ msgs, msg.length ≤ bufferSize) ∧
    ∀ rs, List.Forall₂ Received msgs rs →
      ∃ reads, List.Forall₂ (fun r l => read r = some l) rs reads ∧ reads.flatten.Perm elements

section Packing

variable {σ ι α : Type} {generate : ℕ → σ → SentFrame σ} {items : σ → List ι} {capacity start : ℕ}
  {size : ι → ℕ} {encode : ℕ → List ι → List UInt8} {s : σ} {fuel : ℕ}

/-- The first frame is sent. -/
theorem message_mem_sendFrames {call : ℕ} {msgs : List (List UInt8)}
    (h : sendFrames generate fuel call s = some msgs) : (generate call s).message ∈ msgs := by
  cases fuel with
  | zero => exact absurd h (by simp [sendFrames])
  | succ fuel =>
    unfold sendFrames at h
    dsimp only at h
    split at h
    · obtain rfl := Option.some.inj h
      exact List.mem_singleton_self _
    · obtain ⟨rest, -, rfl⟩ := Option.map_eq_some_iff.mp h
      exact List.mem_cons_self

/-- The frames are the batches of the items. -/
theorem Packs.sendFrames_eq (h : Packs generate items capacity size start encode)
    {bs : List (List ι)} (hbs : batches capacity size start fuel (items s) = some bs) (call : ℕ) :
    ∃ msgs, sendFrames generate fuel call s = some msgs ∧
      List.Forall₂ (fun c msg => ∃ call, msg = encode call c) bs msgs := by
  induction fuel generalizing s bs call with
  | zero => exact absurd hbs (by simp [batches])
  | succ fuel ih =>
    unfold batches at hbs
    unfold sendFrames
    dsimp only at hbs ⊢
    rw [h.isCompleted, h.message]
    split at hbs
    next hnil =>
      obtain rfl := Option.some.inj hbs
      rw [if_pos hnil]
      exact ⟨_, rfl, .cons ⟨call, rfl⟩ .nil⟩
    next hne =>
      obtain ⟨rest, hrest, rfl⟩ := Option.map_eq_some_iff.mp hbs
      rw [← h.left call] at hrest
      obtain ⟨msgs, hsend, hmsgs⟩ := ih hrest (call + 1)
      rw [if_neg hne, hsend]
      exact ⟨_, rfl, .cons ⟨call, rfl⟩ hmsgs⟩

/-- What is read of frames, each of which gives what is in its batch. -/
theorem exists_reads {P : List ι → List UInt8 → Prop} {read : Input → Option (List α)} {g : ι → α}
    {bs : List (List ι)} {msgs : List (List UInt8)} {rs : List Input}
    (hmsgs : List.Forall₂ P bs msgs) (hrs : List.Forall₂ Received msgs rs)
    (hread : ∀ c msg r, P c msg → Received msg r → ∃ l, read r = some l ∧ l.Perm (c.map g)) :
    ∃ reads, List.Forall₂ (fun r l => read r = some l) rs reads ∧
      reads.flatten.Perm (bs.flatten.map g) := by
  induction hmsgs generalizing rs with
  | nil =>
    cases hrs
    exact ⟨[], .nil, .refl _⟩
  | cons hc _ ih =>
    obtain _ | ⟨hr, hrs⟩ := hrs
    obtain ⟨l, hl, hperm⟩ := hread _ _ _ hc hr
    obtain ⟨reads, hreads, hrest⟩ := ih hrs
    refine ⟨l :: reads, .cons hl hreads, ?_⟩
    rw [List.flatten_cons, List.flatten_cons, List.map_append]
    exact hperm.append hrest

/-- Where each item has room in a frame of its own, and a frame is read as what is in it, all of
them arrive. -/
theorem Packs.delivered (h : Packs generate items capacity size start encode) {g : ι → α}
    {read : Input → Option (List α)}
    (hlength : ∀ call c, (encode call c).length = start + (c.map size).sum)
    (hstart : start ≤ capacity) (hroom : ∀ a ∈ items s, start + size a ≤ capacity)
    (hread : ∀ call c, (∀ a ∈ c, a ∈ items s) → start + (c.map size).sum ≤ capacity →
      ∀ r, Received (encode call c) r → ∃ l, read r = some l ∧ l.Perm (c.map g)) :
    Delivered generate capacity read s ((items s).map g) := by
  obtain ⟨bs, hbs⟩ := exists_batches hroom (Nat.lt_succ_self _)
  obtain ⟨msgs, hsend, hmsgs⟩ := h.sendFrames_eq hbs 0
  have hle : ∀ c ∈ bs, start + (c.map size).sum ≤ capacity := by
    intro c hc
    rcases eq_or_ne c [] with rfl | hne
    · exact hstart
    · exact sum_le_of_mem_batches hbs hc hne
  have hmem := (List.forall₂_and_left bs msgs).mpr ⟨fun c hc => hc, hmsgs⟩
  refine ⟨_, msgs, hsend, fun msg hmsg => ?_, fun rs hrs => ?_⟩
  · obtain ⟨i, hi, rfl⟩ := List.getElem_of_mem hmsg
    have hi' : i < bs.length := hmem.length_eq ▸ hi
    obtain ⟨hc, call, heq⟩ := hmem.get hi' hi
    change msgs[i] = encode call bs[i] at heq
    rw [heq, hlength]
    exact hle _ hc
  · rw [← batches_flatten hbs]
    refine exists_reads hmem hrs ?_
    rintro c msg r ⟨hc, call, rfl⟩ hr
    refine hread call c (fun a ha => ?_) (hle c hc) r hr
    rw [← batches_flatten hbs]
    exact List.mem_flatten_of_mem hc ha

end Packing

/-! ## The three generators -/

section Promotion

variable {p q : Protocol} {e : Protocol.Envelope} {server : NetworkAddr} {chunks : List Metadata}
  {keys : List Key}

/-- The lost chunks and, behind them, the keys. -/
def promoted (its : List Metadata × List Key) : List (Metadata ⊕ Key) :=
  its.1.map Sum.inl ++ its.2.map Sum.inr

/-- The size of the record of a chunk or a key. -/
def promotedSize : Metadata ⊕ Key → ℕ
  | .inl _ => 12
  | .inr key => 1 + key.size

/-- A frame with these chunks and keys. -/
def Protocol.promoteFrame (p : Protocol) (e : Protocol.Envelope) (server : NetworkAddr)
    (c : List (Metadata ⊕ Key)) : List UInt8 :=
  p.frame e (promotePayload server (c.filterMap Sum.getLeft?) (c.filterMap Sum.getRight?))

theorem filterMap_promoted (its : List Metadata × List Key) :
    (promoted its).filterMap Sum.getLeft? = its.1 ∧
      (promoted its).filterMap Sum.getRight? = its.2 := by
  have hleft : Sum.getLeft? ∘ (Sum.inr : Key → Metadata ⊕ Key) = fun _ => none := rfl
  have hright : Sum.getRight? ∘ (Sum.inl : Metadata → Metadata ⊕ Key) = fun _ => none := rfl
  have hinl : Sum.getLeft? ∘ (Sum.inl : Metadata → Metadata ⊕ Key) = some := rfl
  have hinr : Sum.getRight? ∘ (Sum.inr : Key → Metadata ⊕ Key) = some := rfl
  simp [promoted, List.filterMap_append, List.filterMap_map, hleft, hright, hinl, hinr]

theorem promoted_filterMap_perm (c : List (Metadata ⊕ Key)) :
    (promoted (c.filterMap Sum.getLeft?, c.filterMap Sum.getRight?)).Perm c := by
  induction c with
  | nil => exact .refl _
  | cons a c ih =>
    cases a with
    | inl md => exact ih.cons _
    | inr key => exact List.perm_middle.trans (ih.cons _)

theorem length_promoteFrame (c : List (Metadata ⊕ Key)) :
    (p.promoteFrame e server c).length = 30 + (c.map promotedSize).sum := by
  have hsum : (c.map promotedSize).sum = 12 * (c.filterMap Sum.getLeft?).length +
      ((c.filterMap Sum.getRight?).flatMap keyRecord).length := by
    induction c with
    | nil => rfl
    | cons a c ih =>
      rw [List.map_cons, List.sum_cons, ih]
      cases a with
      | inl md =>
        have hleft : (Sum.inl md :: c).filterMap Sum.getLeft? = md :: c.filterMap Sum.getLeft? :=
          rfl
        have hright : (Sum.inl md :: c).filterMap Sum.getRight? = c.filterMap Sum.getRight? := rfl
        rw [hleft, hright, List.length_cons, promotedSize]
        omega
      | inr key =>
        have hleft : (Sum.inr key :: c).filterMap Sum.getLeft? = c.filterMap Sum.getLeft? := rfl
        have hright : (Sum.inr key :: c).filterMap Sum.getRight? =
          key :: c.filterMap Sum.getRight? := rfl
        rw [hleft, hright, List.flatMap_cons, List.length_append, length_keyRecord, promotedSize]
        omega
  rw [Protocol.promoteFrame, length_frame, length_promotePayload, hsum]
  omega

theorem take_promoted {i j : ℕ} (hi : i ≤ chunks.length) (h : i = chunks.length ∨ j = 0) :
    (promoted (chunks, keys)).take (i + j) = promoted (chunks.take i, keys.take j) ∧
      (promoted (chunks, keys)).drop (i + j) = promoted (chunks.drop i, keys.drop j) := by
  simp only [promoted, List.take_append, List.drop_append, List.length_map, List.map_take,
    List.map_drop]
  rcases h with rfl | rfl
  · have hlen : (chunks.map (Sum.inl : Metadata → Metadata ⊕ Key)).length ≤ chunks.length := by
      rw [List.length_map]
    have hlen' := hlen.trans (Nat.le_add_right _ j)
    rw [Nat.add_sub_cancel_left, List.take_of_length_le hlen, List.take_of_length_le hlen',
      List.drop_of_length_le hlen, List.drop_of_length_le hlen']
    exact ⟨rfl, rfl⟩
  · rw [Nat.add_zero, Nat.sub_eq_zero_of_le hi]
    exact ⟨rfl, rfl⟩

/-- The two loops go through the chunks and the keys as one loop would. -/
theorem fit_promoted (p : Protocol) (chunks : List Metadata) (keys : List Key) :
    let chunkCount := fit p.bufferSize (fun _ => 12) 30 chunks
    fit p.bufferSize promotedSize 30 (promoted (chunks, keys)) = chunkCount +
      if chunkCount = chunks.length then
        fit p.bufferSize (fun key => 1 + key.size) (30 + 12 * chunkCount) keys
      else 0 := by
  have hsize : promotedSize ∘ Sum.inl = fun _ => 12 := rfl
  have hsum : ((chunks.map Sum.inl).map promotedSize).sum = 12 * chunks.length := by
    rw [List.map_map, hsize, List.map_const', List.sum_replicate, smul_eq_mul, Nat.mul_comm]
  have hchunks : fit p.bufferSize promotedSize 30 (chunks.map Sum.inl) =
      fit p.bufferSize (fun _ => 12) 30 chunks := fit_map _ _
  have hkeys : ∀ bytes, fit p.bufferSize promotedSize bytes (keys.map Sum.inr) =
      fit p.bufferSize (fun key => 1 + key.size) bytes keys := fun _ => fit_map _ _
  dsimp only
  rw [promoted, fit_append, hsum, hchunks, hkeys, List.length_map]
  split_ifs with hall
  · rw [hall]
  · rfl

theorem packs_promote (p : Protocol) (e : Protocol.Envelope) (server : NetworkAddr) :
    Packs (fun _ => p.generatePromoteBackupServerHeader e server) promoted p.bufferSize
      promotedSize 30 (fun _ => p.promoteFrame e server) := by
  have hsplit : ∀ its : List Metadata × List Key,
      let n := fit p.bufferSize promotedSize 30 (promoted its)
      let frame := p.generatePromoteBackupServerHeader e server its
      frame.message = p.promoteFrame e server ((promoted its).take n) ∧
        frame.isCompleted = ((promoted its).drop n).isEmpty ∧
        promoted frame.left = (promoted its).drop n := by
    rintro ⟨chunks, keys⟩
    have hle : fit p.bufferSize (fun _ => 12) 30 chunks ≤ chunks.length := fit_le_length
    have hle' : ∀ bytes, fit p.bufferSize (fun key : Key => 1 + key.size) bytes keys ≤
        keys.length := fun _ => fit_le_length
    dsimp only
    rw [fit_promoted, Protocol.generatePromoteBackupServerHeader]
    dsimp only
    simp only [decide_eq_true_eq]
    generalize hcount : fit p.bufferSize (fun _ => 12) 30 chunks = i at hle ⊢
    generalize hunsealed : (if i = chunks.length then
      fit p.bufferSize (fun key : Key => 1 + key.size) (30 + 12 * i) keys else 0) = j
    have hj : i = chunks.length ∨ j = 0 := by
      by_cases hall : i = chunks.length
      · exact .inl hall
      · rw [if_neg hall] at hunsealed
        exact .inr hunsealed.symm
    have hjle : j ≤ keys.length := by
      rw [← hunsealed]
      split_ifs
      · exact hle' _
      · exact Nat.zero_le _
    obtain ⟨htake, hdrop⟩ := @take_promoted chunks keys i j hle hj
    obtain ⟨hleft, hright⟩ := filterMap_promoted (chunks.take i, keys.take j)
    rw [htake, hdrop, Protocol.promoteFrame, hleft, hright]
    refine ⟨rfl, ?_, rfl⟩
    rw [Bool.eq_iff_iff, Bool.and_eq_true, decide_eq_true_eq, decide_eq_true_eq, promoted,
      List.isEmpty_iff, List.append_eq_nil_iff, List.map_eq_nil_iff, List.map_eq_nil_iff,
      List.drop_eq_nil_iff, List.drop_eq_nil_iff]
    omega
  exact ⟨fun _ its => (hsplit its).1, fun _ its => (hsplit its).2.1, fun _ its => (hsplit its).2.2⟩

/-- A promotion arrives exactly if no key is that of a split and none is empty. -/
theorem promotion_delivered_iff (he : e.Fits q) (hchunks : ∀ md ∈ chunks, md.Fits)
    (hkeys : ∀ key ∈ keys, key.size < 2 ^ 8) (hsize : 42 ≤ p.bufferSize)
    (hroom : ∀ key ∈ keys, 31 + key.size ≤ p.bufferSize) :
    (∀ old < 2 ^ 8, Delivered (fun _ => p.generatePromoteBackupServerHeader e server) p.bufferSize
        (q.readPromoted old) (chunks, keys) (promoted (chunks, keys))) ↔
      ∀ key ∈ keys, key.isLarge = false ∧ 0 < key.size := by
  have hmem : ∀ {a}, a ∈ promoted (chunks, keys) → (∀ md, a = .inl md → md ∈ chunks) ∧
      ∀ key, a = .inr key → key ∈ keys := by
    intro a ha
    rcases List.mem_append.mp ha with ha | ha
    · obtain ⟨md, hmd, rfl⟩ := List.mem_map.mp ha
      exact ⟨fun md' heq => Sum.inl.inj heq ▸ hmd, fun _ heq => (by cases heq)⟩
    · obtain ⟨key, hkey, rfl⟩ := List.mem_map.mp ha
      exact ⟨fun _ heq => (by cases heq), fun key' heq => Sum.inr.inj heq ▸ hkey⟩
  constructor
  · intro h key hkey
    obtain ⟨fuel, msgs, -, -, hread⟩ := h 1 (by norm_num)
    obtain ⟨rs, hrs⟩ := exists_received msgs
    obtain ⟨reads, hreads, hperm⟩ := hread rs hrs
    have hin : Sum.inr key ∈ promoted (chunks, keys) :=
      List.mem_append_right _ (List.mem_map_of_mem hkey)
    obtain ⟨l, hl, hkeyl⟩ := List.mem_flatten.mp (hperm.mem_iff.mpr hin)
    obtain ⟨i, hi, rfl⟩ := List.getElem_of_mem hl
    exact of_mem_readPromoted (hreads.get (hreads.length_eq ▸ hi) hi) hkeyl Nat.one_pos
  · intro hplain old _
    have hdelivered : Delivered (fun _ => p.generatePromoteBackupServerHeader e server)
        p.bufferSize (q.readPromoted old) (chunks, keys) ((promoted (chunks, keys)).map id) :=
      (packs_promote p e server).delivered (fun _ => length_promoteFrame) (by omega)
      (fun a ha => by
        cases a with
        | inl md => exact hsize
        | inr key =>
          have := hroom key ((hmem ha).2 key rfl)
          rw [promotedSize]
          omega)
      (fun _ c hc hle r hr => by
        refine ⟨_, readPromoted_eq hr he (fun md hmd => ?_) (fun key hkey => ?_) ?_, ?_⟩
        · obtain ⟨a, ha, hget⟩ := List.mem_filterMap.mp hmd
          exact hchunks md ((hmem (hc a ha)).1 md (Sum.getLeft?_eq_some_iff.mp hget))
        · obtain ⟨a, ha, hget⟩ := List.mem_filterMap.mp hkey
          have hin := (hmem (hc a ha)).2 key (Sum.getRight?_eq_some_iff.mp hget)
          exact ⟨(hplain key hin).1, (hplain key hin).2, hkeys key hin⟩
        · have hlen : (p.promoteFrame e server c).length = 30 + (c.map promotedSize).sum :=
            length_promoteFrame c
          rw [Protocol.promoteFrame, length_frame] at hlen
          have := p.bufferSize_lt
          omega
        · rw [List.map_id]
          exact promoted_filterMap_perm c)
    rwa [List.map_id] at hdelivered

end Promotion

section Batch

variable {p q : Protocol} {e : ℕ → Protocol.Envelope} {chunks : List BatchChunk}

theorem packs_batch (p : Protocol) (e : ℕ → Protocol.Envelope) :
    Packs (fun call => p.generateBatchChunkHeader (e call)) id p.bufferSize (fun _ => 16) 20
      (fun call c => p.batchMessage (e call) c.length (c.flatMap BatchChunk.bytes)) := by
  refine ⟨fun call chunks => ?_, fun call chunks => ?_, fun _ _ => rfl⟩
  · rw [id_eq, List.length_take, Nat.min_eq_left fit_le_length]
    rfl
  · have hle : fit p.bufferSize (fun _ => 16) 20 chunks ≤ chunks.length := fit_le_length
    change decide (_ = _) = _
    rw [Bool.eq_iff_iff, decide_eq_true_eq, List.isEmpty_iff, id_eq, List.drop_eq_nil_iff]
    omega

/-- A batch arrives. -/
theorem batch_delivered (he : ∀ call, (e call).Fits q) (hchunks : ∀ c ∈ chunks, c.Fits)
    (hsize : 36 ≤ p.bufferSize) :
    Delivered (fun call => p.generateBatchChunkHeader (e call)) p.bufferSize q.readBatchChunks
      chunks (chunks.map fun c => (c.requestId, some c.metadata)) := by
  have hlen : ∀ c : List BatchChunk,
      (c.flatMap BatchChunk.bytes).length = (c.map fun _ => 16).sum := by
    intro c
    rw [List.length_flatMap]
    exact congrArg List.sum (List.map_congr_left fun c _ => c.length_bytes)
  refine (packs_batch p e).delivered (s := chunks) (fun call c => ?_) (by omega)
    (fun _ _ => hsize) (fun call c hc hle r hr => ?_)
  · rw [Protocol.batchMessage, List.length_append, Protocol.length_generateHeader,
      List.length_append, length_beBytes, hlen]
    omega
  · have := p.bufferSize_lt
    exact ⟨_, readBatchChunks_eq hr (he call) (fun b hb => hchunks b (hc b hb))
      (by rw [hlen]; omega), .refl _⟩

end Batch

section Release

variable {p q : Protocol} {e : Protocol.Envelope} {chunks : List Metadata}

/-- A release arrives exactly if it is a single frame: a frame that is not the last one is longer
than the buffer. -/
theorem release_delivered_iff (he : e.Fits q) (hchunks : ∀ md ∈ chunks, md.Fits) :
    Delivered (fun _ => p.generateDegradedReleaseReqHeader e) p.bufferSize q.readReleased chunks
        chunks ↔
      16 + 12 * chunks.length ≤ p.bufferSize := by
  have hsum : ∀ c : List Metadata, (c.map fun _ => 12).sum = 12 * c.length := by
    intro c
    rw [List.map_const', List.sum_replicate, smul_eq_mul, Nat.mul_comm]
  have hlen : ∀ c : List Metadata, (p.frame e (c.flatMap Metadata.bytes)).length =
      16 + 12 * c.length := by
    intro c
    rw [length_frame, length_flatMap_metadata]
  set n := fit p.bufferSize (fun _ => 12) 0 chunks with hn
  have hle : n ≤ chunks.length := fit_le_length
  constructor
  · rintro ⟨fuel, msgs, hsend, hbound, -⟩
    have hfirst := hbound _ (message_mem_sendFrames hsend)
    change (p.frame e ((chunks.take n).flatMap Metadata.bytes)).length ≤ p.bufferSize at hfirst
    rw [hlen, List.length_take, Nat.min_eq_left hle] at hfirst
    rcases hle.lt_or_eq with hlt | heq
    · have hnext := lt_sum_of_fit_lt hlt
      rw [hsum, List.length_take, ← hn, Nat.min_eq_left hlt] at hnext
      omega
    · rwa [heq] at hfirst
  · intro hroom
    have hall : n = chunks.length := fit_eq_length (by rw [hsum]; omega)
    have hmessage : p.generateDegradedReleaseReqHeader e chunks =
        ⟨p.frame e (chunks.flatMap Metadata.bytes), true, []⟩ := by
      rw [Protocol.generateDegradedReleaseReqHeader, ← hn, hall, List.take_length, List.drop_length,
        decide_eq_true rfl]
    refine ⟨1, [p.frame e (chunks.flatMap Metadata.bytes)], ?_, fun msg hmsg => ?_,
      fun rs hrs => ?_⟩
    · rw [sendFrames, hmessage]
      rfl
    · rw [List.mem_singleton.mp hmsg, hlen]
      exact hroom
    · obtain ⟨r, rs, hr, hnil, rfl⟩ := List.forall₂_cons_left_iff.mp hrs
      obtain rfl := List.forall₂_nil_left_iff.mp hnil
      have := p.bufferSize_lt
      refine ⟨[chunks], .cons (readReleased_eq hr he hchunks (by omega)) .nil, ?_⟩
      rw [List.flatten_singleton]

end Release

/-- What the three generators send arrives: the promotion and the release go from the coordinator
`c` to the server `s`, the batch goes from there to the server `t`. The size of the key in front of
the loop over the keys is not set. -/
def FramesDelivered (c s t : Protocol) (ePromote eRelease : Protocol.Envelope)
    (eBatch : ℕ → Protocol.Envelope) (server : NetworkAddr) (chunks : List Metadata)
    (keys : List Key) (batch : List BatchChunk) (released : List Metadata) : Prop :=
  (∀ old < 2 ^ 8, Delivered (fun _ => c.generatePromoteBackupServerHeader ePromote server)
    c.bufferSize (s.readPromoted old) (chunks, keys)
    (chunks.map Sum.inl ++ keys.map Sum.inr)) ∧
  Delivered (fun call => s.generateBatchChunkHeader (eBatch call)) s.bufferSize t.readBatchChunks
    batch (batch.map fun c => (c.requestId, some c.metadata)) ∧
  Delivered (fun _ => c.generateDegradedReleaseReqHeader eRelease) c.bufferSize s.readReleased
    released released

/-- All of it arrives exactly if no key of the promotion is that of a split or empty, and the
release is a single frame. -/
theorem framesDelivered_iff {c s t : Protocol} {ePromote eRelease : Protocol.Envelope}
    {eBatch : ℕ → Protocol.Envelope} {server : NetworkAddr} {chunks released : List Metadata}
    {keys : List Key} {batch : List BatchChunk} (hPromote : ePromote.Fits s)
    (hRelease : eRelease.Fits s) (hBatch : ∀ call, (eBatch call).Fits t)
    (hchunks : ∀ md ∈ chunks, md.Fits) (hkeys : ∀ key ∈ keys, key.size < 2 ^ 8)
    (hbatch : ∀ b ∈ batch, b.Fits) (hreleased : ∀ md ∈ released, md.Fits)
    (hc : 42 ≤ c.bufferSize) (hroom : ∀ key ∈ keys, 31 + key.size ≤ c.bufferSize)
    (hs : 36 ≤ s.bufferSize) :
    FramesDelivered c s t ePromote eRelease eBatch server chunks keys batch released ↔
      (∀ key ∈ keys, key.isLarge = false ∧ 0 < key.size) ∧
        16 + 12 * released.length ≤ c.bufferSize := by
  have hdelivered := batch_delivered (p := s) hBatch hbatch hs
  have hpromotion := @promotion_delivered_iff c s ePromote server chunks keys hPromote hchunks hkeys
    hc hroom
  rw [FramesDelivered, release_delivered_iff hRelease hreleased, ← hpromotion]
  exact ⟨fun h => ⟨h.1, h.2.2⟩, fun h => ⟨h.1, hdelivered, h.2⟩⟩

/-- The address of a server. -/
def serverAddr : NetworkAddr := ⟨[10, 0, 0, 1], [35, 40], rfl, rfl⟩

theorem framesDelivered_small :
    FramesDelivered (party 0x08 0x20) (party 0x18 0x60) (party 0x18 0x60) ⟨0x04, 0x60, 0x40, 1, 9⟩
      ⟨0x01, 0x60, 0x38, 1, 10⟩ (fun call => ⟨0x01, 0x60, 0x61, 2, call % 2 ^ 32⟩) serverAddr
      [⟨0, 1, 2⟩, ⟨0, 3, 2⟩] [.plain [1], .plain [2, 3]] [⟨136, ⟨0, 1, 0⟩⟩] [⟨1, 5, 0⟩] := by
  refine (framesDelivered_iff ?_ ?_ (fun call => ?_) ?_ ?_ ?_ ?_ ?_ ?_ ?_).mpr ⟨?_, ?_⟩
  · exact ⟨by decide, by decide, by decide, by decide⟩
  · exact ⟨by decide, by decide, by decide, by decide⟩
  · have hreceiver : (0x60 : UInt8) &&& 0x60 = 0x60 := by decide
    exact ⟨hreceiver, by simp [Protocol.opcodes], by norm_num, Nat.mod_lt _ (by norm_num)⟩
  · intro md hmd
    have hid : md.listId = 0 ∧ md.stripeId ≤ 3 ∧ md.chunkId = 2 := by
      rcases List.mem_pair.mp hmd with rfl | rfl <;> decide
    exact ⟨by omega, by omega, by omega⟩
  · simp [Key.plain]
  · intro b hb
    rw [List.mem_singleton.mp hb]
    exact ⟨by norm_num, by norm_num, by norm_num, by norm_num⟩
  · intro md hmd
    rw [List.mem_singleton.mp hmd]
    exact ⟨by norm_num, by norm_num, by norm_num⟩
  · simp [party]
  · simp [party, Key.plain]
  · simp [party]
  · simp [Key.plain]
  · simp [party]

/-- Chunks of more stripes than a frame has room for. -/
def manyReleased : List Metadata := (List.range 5461).map fun stripeId => ⟨0, stripeId, 0⟩

/-- The records alone would fill the buffer; with the header they do not fit into it. -/
theorem not_framesDelivered_of_manyReleased :
    ¬FramesDelivered (party 0x08 0x20) (party 0x18 0x60) (party 0x18 0x60)
      ⟨0x04, 0x60, 0x40, 1, 9⟩ ⟨0x01, 0x60, 0x38, 1, 10⟩
      (fun call => ⟨0x01, 0x60, 0x61, 2, call % 2 ^ 32⟩) serverAddr [] [] [] manyReleased := by
  rintro ⟨-, -, hrelease⟩
  have hfits : ∀ md ∈ manyReleased, md.Fits := by
    intro md hmd
    obtain ⟨stripeId, hlt, rfl⟩ := List.mem_map.mp hmd
    have := List.mem_range.mp hlt
    exact ⟨by norm_num, by dsimp only; omega, by norm_num⟩
  have hlen : manyReleased.length = 5461 := by rw [manyReleased, List.length_map, List.length_range]
  have hfit : Protocol.Envelope.Fits ⟨0x01, 0x60, 0x38, 1, 10⟩ (party 0x18 0x60) :=
    ⟨by decide, by decide, by decide, by decide⟩
  have hroom := (release_delivered_iff hfit hfits).mp hrelease
  rw [hlen] at hroom
  exact absurd hroom (by simp [party])

end MemEC.Common
