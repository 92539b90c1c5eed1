import MemEC.Common.HeartbeatProtocol
import MemEC.Coordinator.Heartbeat

/-!
# Synchronising the metadata

A SYNC event of a server produces heartbeats until one of them takes all that
is pending: as long as a message is not the last one, the event is queued
again. The coordinator inserts the records of every message that it receives.
-/

namespace MemEC.Coordinator

open MemEC.Lib MemEC.Common

/-! ## The server -/

/-- The two sets that wait for a heartbeat. -/
structure Pending where
  sealed : List Metadata
  ops : List KeyOp

/-- The buffer holds each of the records, and the fields of the records have the size of their
types. -/
structure Pending.FitsIn (p : Protocol) (s : Pending) : Prop where
  sealed : ∀ md ∈ s.sealed, md.Fits ∧ 29 + 12 ≤ p.bufferSize
  ops : ∀ op ∈ s.ops, op.Fits ∧ 29 + op.size ≤ p.bufferSize

/-- What the server puts into the headers of its heartbeats, with a new timestamp for each. -/
structure SyncEvent where
  instanceId : ℕ
  requestId : ℕ
  timestamps : ℕ → ℕ

/-- The header fields are `uint16_t` and `uint32_t`. -/
structure SyncEvent.Fits (event : SyncEvent) : Prop where
  instanceId : event.instanceId < 2 ^ 16
  requestId : event.requestId < 2 ^ 32
  timestamps : ∀ n, event.timestamps n < 2 ^ 32

/-- The `n`-th heartbeat of a SYNC event. -/
def heartbeat (p : Protocol) (event : SyncEvent) (n : ℕ) (s : Pending) : HeartbeatMessage :=
  p.generateHeartbeatMessage 0x00 0x20 0x31 event.instanceId event.requestId (event.timestamps n)
    s.sealed s.ops

/-- The heartbeats of a SYNC event from the `n`-th on, and what is pending after them. The `n`-th
call goes over the sets in the order `orders n`. -/
def sync (p : Protocol) (event : SyncEvent) (orders : ℕ → Pending → Pending) :
    ℕ → ℕ → Pending → Option (List HeartbeatMessage × Pending)
  | 0, _, _ => none
  | fuel + 1, n, s =>
    let msg := heartbeat p event n (orders n s)
    if msg.isCompleted then some ([msg], ⟨msg.sealed, msg.ops⟩)
    else
      (sync p event orders fuel (n + 1) ⟨msg.sealed, msg.ops⟩).map fun (msgs, s') =>
        (msg :: msgs, s')

/-! ## The coordinator -/

/-- A loop over the records of a message: `processed` keeps the size of the last record whose size
was set. -/
structure Reading (α : Type) where
  records : List α
  failed : ℕ
  offset : ℕ
  processed : ℕ

variable {α S : Type}

/-- One record. -/
def Reading.step (parse : ℕ → Option ℕ × Option α) (s : Reading α) : Reading α :=
  let (bytes, header) := parse s.offset
  let processed := bytes.getD s.processed
  match header with
  | some a => ⟨s.records ++ [a], s.failed, u64 (s.offset + processed), processed⟩
  | none => ⟨s.records, s.failed + 1, u64 (s.offset + processed), processed⟩

/-- `count` records. -/
def readRecords (parse : ℕ → Option ℕ × Option α) : ℕ → Reading α → Reading α
  | 0, s => s
  | count + 1, s => readRecords parse count (s.step parse)

/-- What `processHeartbeat` does: the calls of `insertChunk`, the calls of `insertKey` with the
server whose map is meant, and the number of records that it could not read. -/
structure Processed (S : Type) where
  heartbeat : HeartbeatHeader
  chunks : List Metadata
  keys : List (S × KeyOp)
  failed : ℕ

/-- Keys from a degraded DELETE go to the server of their chunk. The `0x04` is
`PROTO_OPCODE_DELETE`. -/
def insertsKey (self : S) (get : ℕ → ℕ → S) (op : KeyOp) : S × KeyOp :=
  (if op.opcode = 0x04 then get op.metadata.listId op.metadata.chunkId else self, op)

/-- `parseKeyOpMetadataHeader`, and what is inserted. -/
def parseKeyOp (self : S) (get : ℕ → ℕ → S) (input : Input) (offset : ℕ) :
    Option ℕ × Option (S × KeyOp) :=
  (parseKeyOpMetadataHeader input offset).map id (Option.map fun header =>
    insertsKey self get ⟨Key.ofMemory input.bytes header.key header.keySize header.isLarge,
      header.metadata, header.opcode, header.timestamp⟩)

/-- `processHeartbeat`. The variable `processed` has no initial value, so it is an argument here. -/
def processHeartbeat (c : Protocol) (self : S) (get : ℕ → ℕ → S) (buf : Memory)
    (size processed : ℕ) : Option (Processed S) :=
  let input := c.input (some buf) size
  (parseHeartbeatHeader input 0).map fun heartbeat =>
    let chunks := readRecords (parseMetadataHeader input) heartbeat.sealed ⟨[], 0, 13, processed⟩
    let keys := readRecords (parseKeyOp self get input) heartbeat.keys
      ⟨[], chunks.failed, chunks.offset, chunks.processed⟩
    ⟨heartbeat, chunks.records, keys.records, keys.failed⟩

/-- A message from a server as it is dispatched, when it is a heartbeat. -/
def receiveHeartbeat (c : Protocol) (self : S) (get : ℕ → ℕ → S) (buf : Memory)
    (size processed : ℕ) : Option (Processed S) := do
  let header ← c.parseHeader (some buf) size
  if header.sender = 0x18 ∧ header.opcode = 0x31 ∧ header.magic = 0x00 then
    processHeartbeat c self get (advance buf 16) header.length processed
  else none

/-- What is in the buffer behind a message, and in the variables of `processHeartbeat`. -/
structure Leftover where
  buf : Memory
  processed : ℕ

/-- The messages one after the other, from the `n`-th on. -/
def receiveAll (c : Protocol) (self : S) (get : ℕ → ℕ → S) (leftover : ℕ → Leftover) :
    ℕ → List HeartbeatMessage → Option (List (Processed S))
  | _, [] => some []
  | n, msg :: msgs => do
    let r ← receiveHeartbeat c self get ((leftover n).buf.write 0 msg.bytes) msg.bytes.length
      (leftover n).processed
    let rs ← receiveAll c self get leftover (n + 1) msgs
    return r :: rs

/-! ## The frames without their bytes -/

/-- The opcodes of key operations as bytes. -/
def opcodeOfByte (b : UInt8) : Opcode :=
  if b = 0x02 then .set else if b = 0x10 then .degradedSet else if b = 0x04 then .delete
  else if b = 0x20 then .remappingLock else .other

/-- An operation as the frames have it. -/
def recordOf (op : KeyOp) : Record :=
  ⟨op.key, ⟨op.metadata, opcodeOfByte op.opcode, op.timestamp⟩⟩

theorem sealedThatFit_eq_take (bufferSize bytes : ℕ) (sealed : List Metadata) :
    sealedThatFit bufferSize bytes sealed =
      sealed.take (fit bufferSize (fun _ => 12) bytes sealed) := by
  induction sealed generalizing bytes with
  | nil => rfl
  | cons md sealed ih =>
    unfold sealedThatFit fit
    split_ifs
    · rw [ih, List.take_succ_cons]
    · rfl

theorem opsThatFit_eq_take (bufferSize bytes : ℕ) (ops : List KeyOp) :
    opsThatFit bufferSize bytes (ops.map recordOf) =
      (ops.take (fit bufferSize KeyOp.size bytes ops)).map recordOf := by
  induction ops generalizing bytes with
  | nil => rfl
  | cons op ops ih =>
    have hsize : (recordOf op).size = op.size := rfl
    rw [List.map_cons]
    unfold opsThatFit fit
    rw [hsize]
    split_ifs
    · rw [ih, List.take_succ_cons, List.map_cons]
    · rfl

/-- A heartbeat has the chunks and the records of its frame. -/
theorem generateHeartbeatMessage_eq (p : Protocol) (event : SyncEvent) (n : ℕ) (s : Pending) :
    generateHeartbeatMessage p.bufferSize (event.timestamps n) s.sealed
        (s.ops.map recordOf) =
      ⟨event.timestamps n, s.sealed.take (heartbeat p event n s).sealedCount,
        (s.ops.take (heartbeat p event n s).opsCount).map recordOf,
        (heartbeat p event n s).isCompleted⟩ := by
  have hsealed : fit p.bufferSize (fun _ => 12) 29 s.sealed ≤ s.sealed.length := fit_le_length
  have hops : fit p.bufferSize KeyOp.size
      (29 + 12 * fit p.bufferSize (fun _ => 12) 29 s.sealed) s.ops ≤ s.ops.length :=
    fit_le_length
  simp only [generateHeartbeatMessage, sealedThatFit_eq_take, opsThatFit_eq_take, List.length_take,
    List.length_map, Nat.min_eq_left hsealed, Nat.min_eq_left hops, heartbeat,
    Protocol.generateHeartbeatMessage]

/-! ## Reading records -/

/-- A row of records is read as it was written. -/
theorem readRecords_eq {parse : ℕ → Option ℕ × Option α} {m : Memory} {encode : α → List UInt8}
    {size : ℕ} (hsize : size < 2 ^ 64) {l : List α}
    (hparse : ∀ a ∈ l, ∀ offset, m.Holds offset (encode a) → offset + (encode a).length ≤ size →
      parse offset = (some (encode a).length, some a))
    {s : Reading α} (hm : m.Holds s.offset (l.flatMap encode))
    (hrest : s.offset + (l.flatMap encode).length ≤ size) :
    (readRecords parse l.length s).records = s.records ++ l ∧
    (readRecords parse l.length s).failed = s.failed ∧
    (readRecords parse l.length s).offset = s.offset + (l.flatMap encode).length := by
  induction l generalizing s with
  | nil =>
    rw [List.append_nil]
    exact ⟨rfl, rfl, rfl⟩
  | cons a l ih =>
    rw [List.flatMap_cons, Memory.holds_append] at hm
    rw [List.flatMap_cons, List.length_append] at hrest ⊢
    have hstep : s.step parse = ⟨s.records ++ [a], s.failed, s.offset + (encode a).length,
        (encode a).length⟩ := by
      unfold Reading.step
      rw [hparse a List.mem_cons_self s.offset hm.1 (by omega)]
      simp only [Option.getD_some]
      rw [u64_eq (by omega)]
    obtain ⟨hrecords, hfailed, hoffset⟩ :=
      ih (fun b hb => hparse b (List.mem_cons_of_mem _ hb)) (s := s.step parse)
        (by rw [hstep]; exact hm.2) (by rw [hstep]; dsimp only; omega)
    rw [hstep] at hrecords hfailed hoffset
    rw [List.length_cons, readRecords, hstep]
    refine ⟨?_, hfailed, ?_⟩
    · rw [hrecords, List.append_assoc, List.singleton_append]
    · rw [hoffset, Nat.add_assoc]

variable (self : S) (get : ℕ → ℕ → S)

theorem parseKeyOp_eq {input : Input} {offset : ℕ} {op : KeyOp}
    (h : input.bytes.Holds offset op.bytes) (hop : op.Fits) (hsize : input.size < 2 ^ 64)
    (hrest : offset + op.size ≤ input.size) :
    parseKeyOp self get input offset = (some op.size, some (insertsKey self get op)) := by
  unfold parseKeyOp
  rw [parseKeyOpMetadataHeader_eq h hop hsize hrest]
  simp only [Prod.map_apply, id_eq, Option.map_some, ofMemory_key h]

theorem readChunks_eq {input : Input} {s : Reading Metadata} {sealed : List Metadata}
    (h : input.bytes.Holds s.offset (sealed.flatMap Metadata.bytes))
    (hsealed : ∀ md ∈ sealed, md.Fits) (hsize : input.size < 2 ^ 64)
    (hrest : s.offset + 12 * sealed.length ≤ input.size) :
    (readRecords (parseMetadataHeader input) sealed.length s).records = s.records ++ sealed ∧
    (readRecords (parseMetadataHeader input) sealed.length s).failed = s.failed ∧
    (readRecords (parseMetadataHeader input) sealed.length s).offset =
      s.offset + 12 * sealed.length := by
  rw [← length_flatMap_metadata] at hrest ⊢
  apply readRecords_eq hsize _ h hrest
  intro md hmd offset hm hfit
  rw [Metadata.length_bytes] at hfit ⊢
  exact parseMetadataHeader_eq hm (hsealed md hmd) hsize hfit

theorem readKeys_eq {input : Input} {s : Reading (S × KeyOp)} {ops : List KeyOp}
    (h : input.bytes.Holds s.offset (ops.flatMap KeyOp.bytes))
    (hops : ∀ op ∈ ops, op.Fits) (hsize : input.size < 2 ^ 64)
    (hrest : s.offset + (ops.map KeyOp.size).sum ≤ input.size) :
    (readRecords (parseKeyOp self get input) ops.length s).records =
      s.records ++ ops.map (insertsKey self get) ∧
    (readRecords (parseKeyOp self get input) ops.length s).failed = s.failed := by
  have hbytes : (ops.map (insertsKey self get)).flatMap (fun r => r.2.bytes) =
      ops.flatMap KeyOp.bytes := by
    rw [List.flatMap_map]
    rfl
  rw [← length_flatMap_keyOp, ← hbytes] at hrest
  rw [← hbytes] at h
  have hparse : ∀ r ∈ ops.map (insertsKey self get), ∀ offset, input.bytes.Holds offset r.2.bytes →
      offset + r.2.bytes.length ≤ input.size →
      parseKeyOp self get input offset = (some r.2.bytes.length, some r) := by
    intro r hr offset hm hfit
    obtain ⟨op, hop, rfl⟩ := List.mem_map.mp hr
    rw [KeyOp.length_bytes] at hfit ⊢
    exact parseKeyOp_eq self get hm (hops op hop) hsize hfit
  have hread := readRecords_eq hsize hparse h hrest
  rw [List.length_map] at hread
  exact ⟨hread.1, hread.2.1⟩

/-- A heartbeat is processed as it was written. -/
theorem processHeartbeat_eq {c : Protocol} {buf : Memory} {size timestamp : ℕ} {isLast : Bool}
    {sealed : List Metadata} {ops : List KeyOp} {input : Input}
    (hinput : c.input (some buf) size = input)
    (h : input.bytes.Holds 0 (heartbeatPayload timestamp isLast sealed ops))
    (hsize : input.size = 13 + 12 * sealed.length + (ops.map KeyOp.size).sum)
    (hlt : input.size < 2 ^ 32) (htimestamp : timestamp < 2 ^ 32)
    (hsealed : ∀ md ∈ sealed, md.Fits) (hops : ∀ op ∈ ops, op.Fits) (processed : ℕ) :
    processHeartbeat c self get buf size processed =
      some ⟨⟨timestamp, sealed.length, ops.length, isLast⟩, sealed,
        ops.map (insertsKey self get), 0⟩ := by
  have hcount := length_le_sum_size ops
  have hheader : parseHeartbeatHeader input 0 =
      some ⟨timestamp, sealed.length, ops.length, isLast⟩ :=
    parseHeartbeatHeader_eq h htimestamp (by omega) (by omega) (by omega) (by omega)
  simp only [heartbeatPayload, Memory.holds_append, Memory.holds_cons, List.length_append,
    length_beBytes, length_flatMap_metadata] at h
  obtain ⟨-, -, hchunksAt, hkeysAt⟩ := h
  obtain ⟨hchunks, hfailed, hoffset⟩ := readChunks_eq (s := ⟨[], 0, 13, processed⟩) hchunksAt
    hsealed (by omega) (by dsimp only; omega)
  unfold processHeartbeat
  rw [hinput]
  dsimp only
  rw [hheader, Option.map_some, hchunks, hfailed, hoffset]
  obtain ⟨hkeys, hfailed'⟩ := readKeys_eq self get (s := ⟨[], 0, 13 + 12 * sealed.length,
    (readRecords (parseMetadataHeader input) sealed.length ⟨[], 0, 13, processed⟩).processed⟩)
    hkeysAt hops (by omega) (by dsimp only; omega)
  rw [hkeys, hfailed']
  rfl

/-! ## Messages -/

/-- What the coordinator makes of a heartbeat. -/
def delivered (self : S) (get : ℕ → ℕ → S) (timestamp : ℕ) (s : Pending) (msg : HeartbeatMessage) :
    Processed S :=
  ⟨⟨timestamp, msg.sealedCount, msg.opsCount, msg.isCompleted⟩, s.sealed.take msg.sealedCount,
    (s.ops.take msg.opsCount).map (insertsKey self get), 0⟩

theorem receiveHeartbeat_eq {p c : Protocol} (hp : p.sender = 0x18) (hc : c.receiver = 0x20)
    {event : SyncEvent} (hevent : event.Fits) {s : Pending} (hsealed : ∀ md ∈ s.sealed, md.Fits)
    (hops : ∀ op ∈ s.ops, op.Fits) {n : ℕ} {buf : Memory}
    (hbuf : buf.Holds 0 (heartbeat p event n s).bytes) (processed : ℕ) :
    receiveHeartbeat c self get buf (heartbeat p event n s).bytes.length processed =
      some (delivered self get (event.timestamps n) s (heartbeat p event n s)) := by
  have hbuffer := p.bufferSize_lt
  have hlength : (heartbeat p event n s).bytes.length ≤ max 29 p.bufferSize :=
    p.length_generateHeartbeatMessage_le ..
  set msg := heartbeat p event n s with hmsg
  have hsealedCount : msg.sealedCount ≤ s.sealed.length := fit_le_length
  have hopsCount : msg.opsCount ≤ s.ops.length := fit_le_length
  set payload := heartbeatPayload (event.timestamps n) msg.isCompleted
    (s.sealed.take msg.sealedCount) (s.ops.take msg.opsCount) with hpayload
  have hsplit : msg.bytes = p.generateHeader 0x00 0x20 0x31 payload.length event.instanceId
    event.requestId 0 false ++ payload := rfl
  rw [hsplit, List.length_append, Protocol.length_generateHeader] at hlength ⊢
  rw [hsplit, Memory.holds_append, Protocol.length_generateHeader] at hbuf
  have hpayloadLength := length_heartbeatPayload (event.timestamps n) msg.isCompleted
    (s.sealed.take msg.sealedCount) (s.ops.take msg.opsCount)
  rw [← hpayload] at hpayloadLength
  have hprocessed := processHeartbeat_eq self get
    (c.input_some (advance buf 16) (show 0 < payload.length by omega))
    (holds_advance.mpr hbuf.2) hpayloadLength (by dsimp only; omega) (hevent.timestamps n)
    (fun md hmd => hsealed md (List.mem_of_mem_take hmd))
    (fun op hop => hops op (List.mem_of_mem_take hop)) processed
  rw [List.length_take, List.length_take, Nat.min_eq_left hsealedCount,
    Nat.min_eq_left hopsCount] at hprocessed
  unfold receiveHeartbeat
  rw [Protocol.parseHeader_generateHeader hbuf.1 (by omega) (by rw [hc]; decide) (by decide)
    (by omega) hevent.instanceId hevent.requestId (by decide), hp,
    Option.bind_eq_bind, Option.bind_some]
  dsimp only
  rw [if_pos (by decide), hprocessed]
  rfl

/-! ## Whole runs -/

section Sync

variable {p c : Protocol} {event : SyncEvent} {s : Pending}

theorem Pending.FitsIn.of_subset (h : s.FitsIn p) {s' : Pending} (hsealed : s'.sealed ⊆ s.sealed)
    (hops : s'.ops ⊆ s.ops) : s'.FitsIn p :=
  ⟨fun md hmd => h.sealed md (hsealed hmd), fun op hop => h.ops op (hops hop)⟩

/-- A message that is not the last one takes something. -/
theorem Pending.FitsIn.progress (h : s.FitsIn p) (n : ℕ)
    (hmore : (heartbeat p event n s).isCompleted = false) :
    (heartbeat p event n s).sealed.length + (heartbeat p event n s).ops.length <
      s.sealed.length + s.ops.length := by
  have hsealed : fit p.bufferSize (fun _ => 12) 29 s.sealed ≤ s.sealed.length := fit_le_length
  have hops : (heartbeat p event n s).opsCount ≤ s.ops.length := fit_le_length
  have hpos : 0 < (heartbeat p event n s).sealedCount + (heartbeat p event n s).opsCount := by
    by_cases hnil : s.sealed = []
    · have hcount : (heartbeat p event n s).sealedCount = 0 := by
        simp [heartbeat, Protocol.generateHeartbeatMessage, hnil]
      have hne : s.ops ≠ [] := by
        intro hops
        simp [heartbeat, Protocol.generateHeartbeatMessage, hnil, hops] at hmore
      have hopsCount : (heartbeat p event n s).opsCount = fit p.bufferSize KeyOp.size
        (29 + 12 * (heartbeat p event n s).sealedCount) s.ops := rfl
      rw [hcount, hopsCount, hcount]
      exact Nat.add_pos_right _ (fit_pos hne fun op hop => (h.ops op hop).2)
    · have hfit := fit_pos hnil fun md hmd => (h.sealed md hmd).2
      exact Nat.add_pos_left hfit _
  have hlengths : (heartbeat p event n s).sealed.length =
      s.sealed.length - (heartbeat p event n s).sealedCount ∧
      (heartbeat p event n s).ops.length =
        s.ops.length - (heartbeat p event n s).opsCount := by
    constructor <;> exact List.length_drop
  change (heartbeat p event n s).sealedCount ≤ _ at hsealed
  omega

/-- A message that is the last one takes everything. -/
theorem heartbeat_completed {n : ℕ} (h : (heartbeat p event n s).isCompleted = true) :
    (heartbeat p event n s).sealed = [] ∧ (heartbeat p event n s).ops = [] ∧
      (heartbeat p event n s).sealedCount = s.sealed.length ∧
      (heartbeat p event n s).opsCount = s.ops.length := by
  have hcounts : (decide ((heartbeat p event n s).sealedCount = s.sealed.length) &&
    decide ((heartbeat p event n s).opsCount = s.ops.length)) = true := h
  rw [Bool.and_eq_true, decide_eq_true_eq, decide_eq_true_eq] at hcounts
  exact ⟨List.drop_eq_nil_of_le hcounts.1.ge, List.drop_eq_nil_of_le hcounts.2.ge, hcounts⟩

/-- The records that a SYNC event delivers, from the `n`-th heartbeat on. -/
theorem sync_delivers_from (hp : p.sender = 0x18) (hc : c.receiver = 0x20) (hevent : event.Fits)
    {orders : ℕ → Pending → Pending}
    (horders : ∀ n s, (orders n s).sealed.Perm s.sealed ∧ (orders n s).ops.Perm s.ops)
    (leftover : ℕ → Leftover) (fuel n : ℕ) (h : s.FitsIn p)
    (hfuel : s.sealed.length + s.ops.length < fuel) :
    ∃ msgs rs, sync p event orders fuel n s = some (msgs, ⟨[], []⟩) ∧
      receiveAll c self get leftover n msgs = some rs ∧
      (∀ r ∈ rs, r.failed = 0) ∧
      (rs.flatMap Processed.chunks).Perm s.sealed ∧
      (rs.flatMap Processed.keys).Perm (s.ops.map (insertsKey self get)) ∧
      rs.map (fun r => r.heartbeat.isLast) = List.replicate (rs.length - 1) false ++ [true] := by
  induction fuel generalizing n s with
  | zero => exact absurd hfuel (Nat.not_lt_zero _)
  | succ fuel ih =>
    obtain ⟨hsealedPerm, hopsPerm⟩ := horders n s
    generalize hordered : orders n s = s' at hsealedPerm hopsPerm
    have hfits : s'.FitsIn p := h.of_subset hsealedPerm.subset hopsPerm.subset
    have hreceive := receiveHeartbeat_eq self get hp hc hevent
      (fun md hmd => (hfits.sealed md hmd).1) (fun op hop => (hfits.ops op hop).1)
      (Memory.holds_write (leftover n).buf 0 (heartbeat p event n s').bytes)
      (leftover n).processed
    cases hcompleted : (heartbeat p event n s').isCompleted with
    | true =>
      obtain ⟨hsealed, hops, hsealedCount, hopsCount⟩ := heartbeat_completed hcompleted
      refine ⟨[heartbeat p event n s'],
        [delivered self get (event.timestamps n) s' (heartbeat p event n s')], ?_, ?_, ?_, ?_,
        ?_, ?_⟩
      · simp only [sync, hordered, hcompleted, if_pos, hsealed, hops]
      · simp only [receiveAll, hreceive, Option.bind_eq_bind, Option.bind_some, Option.pure_def]
      · intro r hr
        rw [List.mem_singleton.mp hr]
        rfl
      · rw [List.flatMap_singleton, delivered, hsealedCount, List.take_length]
        exact hsealedPerm
      · rw [List.flatMap_singleton, delivered, hopsCount, List.take_length]
        exact hopsPerm.map _
      · simp [delivered, hcompleted]
    | false =>
      have hprogress := hfits.progress n hcompleted
      have hlengths : s'.sealed.length = s.sealed.length ∧ s'.ops.length = s.ops.length :=
        ⟨hsealedPerm.length_eq, hopsPerm.length_eq⟩
      have hrest : Pending.FitsIn p ⟨(heartbeat p event n s').sealed,
          (heartbeat p event n s').ops⟩ :=
        hfits.of_subset (List.drop_subset _ _) (List.drop_subset _ _)
      obtain ⟨msgs, rs, hsync, hall, hfailed, hchunks, hkeys, hlast⟩ :=
        ih (n + 1) hrest (by dsimp only; omega)
      refine ⟨heartbeat p event n s' :: msgs,
        delivered self get (event.timestamps n) s' (heartbeat p event n s') :: rs, ?_, ?_, ?_, ?_,
        ?_, ?_⟩
      · simp [sync, hordered, hcompleted, hsync]
      · simp only [receiveAll, hreceive, hall, Option.bind_eq_bind, Option.bind_some,
          Option.pure_def]
      · intro r hr
        rcases List.mem_cons.mp hr with rfl | hr
        · rfl
        · exact hfailed r hr
      · rw [List.flatMap_cons]
        refine (List.Perm.append_left _ hchunks).trans ?_
        refine List.Perm.trans ?_ hsealedPerm
        exact List.Perm.of_eq (List.take_append_drop _ _)
      · rw [List.flatMap_cons]
        refine (List.Perm.append_left _ hkeys).trans ?_
        refine List.Perm.trans ?_ (hopsPerm.map _)
        refine List.Perm.of_eq ?_
        rw [delivered, ← List.map_append]
        exact congrArg _ (List.take_append_drop _ _)
      · have hlength : rs.length = rs.length - 1 + 1 := by
          simpa using congrArg List.length hlast
        have hmore : (delivered self get (event.timestamps n) s'
          (heartbeat p event n s')).heartbeat.isLast = false := hcompleted
        rw [List.map_cons, hlast, hmore, List.length_cons, Nat.add_sub_cancel]
        nth_rewrite 2 [hlength]
        rw [List.replicate_succ, List.cons_append]

/-- A SYNC event on a server whose buffer holds each of the pending records delivers every record
once, with its content, and leaves nothing behind, in whatever order the calls go over the sets and
whatever stood in the buffer of the coordinator. Only the last message says that it is the last. -/
theorem sync_delivers (hp : p.sender = 0x18) (hc : c.receiver = 0x20) (hevent : event.Fits)
    (h : s.FitsIn p) {orders : ℕ → Pending → Pending}
    (horders : ∀ n s, (orders n s).sealed.Perm s.sealed ∧ (orders n s).ops.Perm s.ops)
    (leftover : ℕ → Leftover) :
    ∃ msgs rs, sync p event orders (s.sealed.length + s.ops.length + 1) 0 s =
        some (msgs, ⟨[], []⟩) ∧
      receiveAll c self get leftover 0 msgs = some rs ∧
      (∀ r ∈ rs, r.failed = 0) ∧
      (rs.flatMap Processed.chunks).Perm s.sealed ∧
      (rs.flatMap Processed.keys).Perm (s.ops.map (insertsKey self get)) ∧
      rs.map (fun r => r.heartbeat.isLast) = List.replicate (rs.length - 1) false ++ [true] :=
  sync_delivers_from self get hp hc hevent horders leftover _ 0 h (Nat.lt_succ_self _)

/-- Two sealed chunks and two operations, one of them on a split, and a buffer that holds no two
of the operations. -/
def sample : Pending :=
  ⟨[⟨0, 7, 1⟩, ⟨2, 3, 0⟩], [⟨Key.plain [97, 98], ⟨0, 7, 1⟩, 0x02, 5⟩,
    ⟨Key.split [97, 98, 99] 4096, ⟨1, 9, 0⟩, 0x04, 6⟩]⟩

def sampleProtocol (sender receiver : UInt8) : Protocol := ⟨sender, receiver, 60, 0, by decide⟩

theorem sample_fitsIn : sample.FitsIn (sampleProtocol 0x18 0x60) where
  sealed md hmd := by
    rcases List.mem_pair.mp hmd with rfl | rfl <;>
      exact ⟨⟨by decide, by decide, by decide⟩, by decide⟩
  ops op hop := by
    rcases List.mem_pair.mp hop with rfl | rfl <;>
      exact ⟨⟨by decide, ⟨by decide, by decide, by decide⟩, by decide⟩, by decide⟩

theorem sync_delivers_sample : ∃ msgs rs,
    sync (sampleProtocol 0x18 0x60) ⟨1, 2, fun _ => 3⟩ (fun _ s => s) 5 0 sample =
      some (msgs, ⟨[], []⟩) ∧
    receiveAll (sampleProtocol 0x08 0x20) () (fun _ _ => ()) (fun _ => ⟨0, 0⟩) 0 msgs = some rs ∧
    (∀ r ∈ rs, r.failed = 0) ∧ (rs.flatMap Processed.chunks).Perm sample.sealed ∧
    (rs.flatMap Processed.keys).Perm (sample.ops.map (insertsKey () fun _ _ => ())) ∧
    rs.map (fun r => r.heartbeat.isLast) = List.replicate (rs.length - 1) false ++ [true] :=
  sync_delivers () (fun _ _ => ()) rfl rfl
    ⟨by decide, by decide, fun _ => Nat.lt_of_sub_eq_succ rfl⟩ sample_fitsIn
    (fun _ _ => ⟨List.Perm.refl _, List.Perm.refl _⟩) (fun _ => ⟨0, 0⟩)

end Sync

end MemEC.Coordinator
