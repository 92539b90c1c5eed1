import MemEC.Common.KeyValue
import MemEC.Common.Protocol
import MemEC.Lib.Packing

/-!
# Batches of keys and objects

The keys of the objects that are not sealed yet, and the objects themselves, are
sent in messages that take as many of them as the buffer has room for. A
generator is called until it says that it is done. The receiver steps through
the records of a message, and answers objects with their keys.

An object goes into a message as it is stored. If it is a split of a large
object, its header says how long the whole value is, and a reader that takes
this for the length of the record loses its place.
-/

namespace MemEC.Common

open MemEC.Lib

/-! ## Generating -/

/-- What a generator returns: the message, the number of its records, and the iterator, which
stands at the keys that are left. -/
structure Batch where
  message : List UInt8
  count : ℕ
  it : List Key

/-- The `isCompleted` of a generator. It is cleared where the loop stops before its end. -/
def Batch.isCompleted (b : Batch) : Bool := b.it.isEmpty

/-- The loop of the generators: the records that are written behind the first `bytes` bytes, and
the iterator after it. A key without a record is passed over. -/
def writeRecords (record : Key → Option (List UInt8)) (bufferSize : ℕ) :
    ℕ → List Key → List (List UInt8) × List Key
  | _, [] => ([], [])
  | bytes, key :: it =>
    match record key with
    | none => writeRecords record bufferSize bytes it
    | some r =>
      if bytes + r.length ≤ bufferSize then
        let rest := writeRecords record bufferSize (bytes + r.length) it
        (r :: rest.1, rest.2)
      else ([], key :: it)

/-- A key as `generateBatchKeyHeader` writes it: `key.size` bytes of it. -/
def keyRecord (key : Key) : List UInt8 := beBytes 1 key.size ++ key.data.take key.size

namespace Protocol

variable (p : Protocol) (e : Envelope)

/-- The header, the number of records, and the records. The `4` is `PROTO_BATCH_KEY_SIZE` and
`PROTO_BATCH_KEY_VALUE_SIZE`. -/
def batchMessage (count : ℕ) (records : List UInt8) : List UInt8 :=
  p.generateHeader e.magic e.receiver e.opcode (4 + records.length) e.instanceId e.requestId 0
    false ++ (beBytes 4 count ++ records)

/-- A generator with the loop over the keys from `it` on. -/
def generateBatch (record : Key → Option (List UInt8)) (it : List Key) : Batch :=
  let written := writeRecords record p.bufferSize 20 it
  ⟨p.batchMessage e written.1.length written.1.flatten, written.1.length, written.2⟩

/-- `generateBatchKeyHeader`. -/
def generateBatchKeyHeader (it : List Key) : Batch :=
  p.generateBatch e (fun key => some (keyRecord key)) it

/-- `generateBatchKeyValueHeader`. -/
def generateBatchKeyValueHeader (cfg : GlobalConfig) (values : KeyMap Memory) (it : List Key) :
    Batch :=
  p.generateBatch e
    (fun key => (values.find key).map fun data => data.read 0 (KeyValue.sizeAt cfg data 0)) it

end Protocol

/-- The loop around a generator. -/
def sendBatches (generate : List Key → Batch) : ℕ → List Key → Option (List (List UInt8))
  | 0, _ => none
  | fuel + 1, it =>
    let b := generate it
    if b.isCompleted then some [b.message]
    else (sendBatches generate fuel b.it).map (b.message :: ·)

/-! ## Parsing -/

/-- `BatchKeyHeader`. -/
structure BatchKeyHeader where
  count : ℕ
  keys : ℕ

/-- `BatchKeyValueHeader`. -/
structure BatchKeyValueHeader where
  count : ℕ
  keyValues : ℕ

/-- `parseBatchKeyHeader`. -/
def parseBatchKeyHeader (input : Input) (offset : ℕ) : Option BatchKeyHeader :=
  if input.rest offset < 4 then none else some ⟨read4Bytes input.bytes offset, offset + 4⟩

/-- `parseBatchKeyValueHeader`. -/
def parseBatchKeyValueHeader (input : Input) (offset : ℕ) : Option BatchKeyValueHeader :=
  if input.rest offset < 4 then none else some ⟨read4Bytes input.bytes offset, offset + 4⟩

/-- The key that `nextKeyInBatchKeyHeader` finds. -/
structure NextKey where
  keySize : ℕ
  key : ℕ

/-- The object that `nextKeyValueInBatchKeyValueHeader` finds. The value of an empty object is a
null pointer. -/
structure NextKeyValue where
  keySize : ℕ
  valueSize : ℕ
  key : ℕ
  value : ℕ

/-- `nextKeyInBatchKeyHeader`, and the offset after it. -/
def nextKeyInBatchKeyHeader (m : Memory) (header : BatchKeyHeader) (offset : ℕ) : NextKey × ℕ :=
  let ptr := header.keys + offset
  let keySize := read1Byte m ptr
  (⟨keySize, ptr + 1⟩, u32 (offset + (1 + keySize)))

/-- `nextKeyValueInBatchKeyValueHeader`, and the offset after it. -/
def nextKeyValueInBatchKeyValueHeader (m : Memory) (header : BatchKeyValueHeader) (offset : ℕ) :
    NextKeyValue × ℕ :=
  let ptr := header.keyValues + offset
  let keySize := read1Byte m ptr
  let valueSize := read3Bytes m (ptr + 1)
  let key := ptr + 4
  (⟨keySize, valueSize, key, if valueSize ≠ 0 then key + keySize else 0⟩,
    u32 (offset + (4 + keySize + valueSize)))

/-- The loops over the records of a message: `count` calls of `next`. -/
def iterate {α : Type} (next : ℕ → α × ℕ) : ℕ → ℕ → List α
  | 0, _ => []
  | count + 1, offset => (next offset).1 :: iterate next count (next offset).2

/-- The bytes of the key. -/
def NextKey.bytes (k : NextKey) (m : Memory) : List UInt8 := m.read k.key k.keySize

/-- The bytes of the key and of the value. -/
def NextKeyValue.bytes (kv : NextKeyValue) (m : Memory) : List UInt8 × List UInt8 :=
  (m.read kv.key kv.keySize, m.read kv.value kv.valueSize)

namespace Protocol

/-- `generateBatchKeyHeader` for the objects of a message. -/
def generateBatchKeyReply (p : Protocol) (e : Envelope) (m : Memory)
    (header : BatchKeyValueHeader) : List UInt8 :=
  let keyValues := iterate (nextKeyValueInBatchKeyValueHeader m header) header.count 0
  p.batchMessage e header.count
    (keyValues.flatMap fun kv => beBytes 1 kv.keySize ++ m.read kv.key kv.keySize)

/-- What the receiver of a message hands to the parser of the part behind the header. -/
def payload (q : Protocol) (r : Input) : Option Input :=
  (q.parseHeader (some r.bytes) r.size).map fun header =>
    q.input (some (advance r.bytes 16)) header.length

/-- The keys that a party finds in a message of keys. -/
def readKeys (q : Protocol) (r : Input) : Option (List (List UInt8)) := do
  let input ← q.payload r
  let header ← parseBatchKeyHeader input 0
  return (iterate (nextKeyInBatchKeyHeader input.bytes header) header.count 0).map
    fun k => k.bytes input.bytes

/-- The keys and values that a party finds in a message of objects. -/
def readKeyValues (q : Protocol) (r : Input) : Option (List (List UInt8 × List UInt8)) := do
  let input ← q.payload r
  let header ← parseBatchKeyValueHeader input 0
  return (iterate (nextKeyValueInBatchKeyValueHeader input.bytes header) header.count 0).map
    fun kv => kv.bytes input.bytes

/-- The answer to a message of objects. -/
def acknowledge (q : Protocol) (e : Envelope) (r : Input) : Option (List UInt8) := do
  let input ← q.payload r
  let header ← parseBatchKeyValueHeader input 0
  return q.generateBatchKeyReply e input.bytes header

end Protocol

/-! ## What is written -/

section Writing

variable {ι : Type} {key : ι → Key} {encode : ι → List UInt8} {record : Key → Option (List UInt8)}
  {objs : List ι}

/-- The records are those of the keys that fit. -/
theorem writeRecords_eq (h : ∀ o ∈ objs, record (key o) = some (encode o)) (bufferSize bytes : ℕ) :
    let n := fit bufferSize (fun o => (encode o).length) bytes objs
    writeRecords record bufferSize bytes (objs.map key) =
      ((objs.take n).map encode, (objs.drop n).map key) := by
  dsimp only
  induction objs generalizing bytes with
  | nil => rfl
  | cons o objs ih =>
    have ho := h o List.mem_cons_self
    have hobjs := ih fun o ho => h o (List.mem_cons_of_mem _ ho)
    rw [List.map_cons]
    unfold writeRecords
    rw [ho]
    dsimp only
    by_cases hfit : bytes + (encode o).length ≤ bufferSize
    · have hn : fit bufferSize (fun o => (encode o).length) bytes (o :: objs) =
          fit bufferSize (fun o => (encode o).length) (bytes + (encode o).length) objs + 1 :=
        fit_cons_of_le hfit
      rw [if_pos hfit, hn, hobjs]
      rfl
    · have hn : fit bufferSize (fun o => (encode o).length) bytes (o :: objs) = 0 :=
        fit_cons_of_lt (Nat.not_le.mp hfit)
      rw [if_neg hfit, hn]
      rfl

/-- The messages are the batches of the objects. -/
theorem sendBatches_eq (h : ∀ o ∈ objs, record (key o) = some (encode o)) (p : Protocol)
    (e : Protocol.Envelope) (fuel : ℕ) :
    sendBatches (p.generateBatch e record) fuel (objs.map key) =
      (batches p.bufferSize (fun o => (encode o).length) 20 fuel objs).map
        (List.map fun c => p.batchMessage e c.length (c.flatMap encode)) := by
  induction fuel generalizing objs with
  | zero => rfl
  | succ fuel ih =>
    have hdrop : ∀ n, ∀ o ∈ objs.drop n, record (key o) = some (encode o) :=
      fun n o ho => h o (List.mem_of_mem_drop ho)
    have hflat : ∀ c : List ι, (c.map encode).flatten = c.flatMap encode :=
      fun c => (List.flatMap_def ..).symm
    unfold sendBatches batches
    simp only [Protocol.generateBatch, writeRecords_eq h, Batch.isCompleted, List.isEmpty_map,
      List.length_map, hflat]
    split
    · rfl
    · rw [ih (hdrop _), Option.map_map, Option.map_map]
      rfl

end Writing

/-! ## What is read -/

/-- The message is in the buffer of its receiver. -/
structure Received (message : List UInt8) (r : Input) : Prop where
  bytes : r.bytes.Holds 0 message
  size : r.size = message.length

section Reading

variable {p q : Protocol} {e : Protocol.Envelope} {r : Input} {count : ℕ} {records : List UInt8}

/-- What follows the header is handed on, unless it is empty. -/
theorem payload_of_received {payload : List UInt8}
    (hr : Received (p.generateHeader e.magic e.receiver e.opcode payload.length e.instanceId
      e.requestId 0 false ++ payload) r)
    (he : e.Fits q) (hpos : 0 < payload.length) (hlt : payload.length < 2 ^ 32) :
    q.payload r = some ⟨advance r.bytes 16, payload.length⟩ ∧
      (advance r.bytes 16).Holds 0 payload := by
  obtain ⟨hbytes, hsize⟩ := hr
  obtain ⟨hparse, hpayload⟩ := Protocol.receive_eq hbytes he hlt (by norm_num)
  rw [List.length_append, Protocol.length_generateHeader] at hsize
  rw [← hsize] at hparse
  refine ⟨?_, hpayload⟩
  rw [Protocol.payload, hparse, Option.map_some, Protocol.Envelope.header,
    Protocol.input_some _ _ hpos]

theorem payload_eq (hr : Received (p.batchMessage e count records) r) (he : e.Fits q)
    (hlt : 4 + records.length < 2 ^ 32) :
    q.payload r = some ⟨advance r.bytes 16, 4 + records.length⟩ ∧
      (advance r.bytes 16).Holds 0 (beBytes 4 count) ∧ (advance r.bytes 16).Holds 4 records := by
  have hlen : (beBytes 4 count ++ records).length = 4 + records.length := by simp
  unfold Protocol.batchMessage at hr
  rw [← hlen] at hr hlt
  obtain ⟨hinput, hpayload⟩ := payload_of_received hr he (by omega) hlt
  rw [Memory.holds_append, length_beBytes] at hpayload
  rw [hlen] at hinput
  exact ⟨hinput, hpayload⟩

/-- Stepping through the records: each is found where the one before it ends. -/
theorem iterate_eq {ι α β : Type} (next : ℕ → α × ℕ) (f : α → β) {g : ι → β}
    {encode : ι → List UInt8} {m : Memory} {objs : List ι} {offset bound : ℕ}
    (hnext : ∀ o ∈ objs, ∀ offset, m.Holds (4 + offset) (encode o) →
      offset + (encode o).length < bound →
      f (next offset).1 = g o ∧ (next offset).2 = offset + (encode o).length)
    (h : m.Holds (4 + offset) (objs.flatMap encode))
    (hlt : offset + (objs.flatMap encode).length < bound) :
    (iterate next objs.length offset).map f = objs.map g := by
  induction objs generalizing offset with
  | nil => rfl
  | cons o objs ih =>
    rw [List.flatMap_cons, Memory.holds_append] at h
    rw [List.flatMap_cons, List.length_append] at hlt
    obtain ⟨hf, hoffset⟩ := hnext o List.mem_cons_self offset h.1 (by omega)
    have hlt' : offset + (encode o).length + (objs.flatMap encode).length < bound := by omega
    have hobjs : m.Holds (4 + (offset + (encode o).length)) (objs.flatMap encode) := by
      rw [← Nat.add_assoc]
      exact h.2
    have hrest := ih (fun o ho => hnext o (List.mem_cons_of_mem _ ho)) hobjs hlt'
    rw [List.length_cons, iterate, List.map_cons, List.map_cons, hf, hoffset, hrest]

end Reading

section Records

variable {m : Memory} {offset : ℕ}

theorem length_keyRecord (key : Key) : (keyRecord key).length = 1 + key.size := by
  have hdata := key.length_data
  rw [Key.extent] at hdata
  rw [keyRecord, List.length_append, length_beBytes, List.length_take]
  omega

/-- The key of a record is found, without the split offset. -/
theorem nextKey_eq {key : Key} {header : BatchKeyHeader} (hheader : header.keys = 4)
    (hkey : key.size < 2 ^ 8) (h : m.Holds (4 + offset) (keyRecord key))
    (hlt : offset + (keyRecord key).length < 2 ^ 32) :
    (nextKeyInBatchKeyHeader m header offset).1.bytes m = key.data.take key.size ∧
      (nextKeyInBatchKeyHeader m header offset).2 = offset + (keyRecord key).length := by
  have hlen := length_keyRecord key
  rw [keyRecord, List.length_append, length_beBytes] at hlen
  rw [keyRecord, Memory.holds_append, length_beBytes] at h
  rw [length_keyRecord] at hlt ⊢
  have hsize := read1Byte_eq h.1 hkey
  simp only [nextKeyInBatchKeyHeader, hheader, hsize, NextKey.bytes]
  constructor
  · have hread := h.2
    unfold Memory.Holds at hread
    rwa [Nat.add_left_cancel hlen] at hread
  · exact u32_eq hlt

variable {cfg : GlobalConfig} {o : Object cfg} {header : BatchKeyValueHeader}

/-- What is read of the record of an object, and where the next one is looked for: behind as many
bytes as the whole value has. -/
theorem nextKeyValue_eq (hheader : header.keyValues = 4) (h : m.Holds (4 + offset) o.bytes) :
    let next := nextKeyValueInBatchKeyValueHeader m header offset
    next.1.keySize = o.key.length ∧ next.1.valueSize = o.valueSize ∧ next.1.key = 4 + offset + 4 ∧
      next.2 = u32 (offset + (4 + o.key.length + o.valueSize)) := by
  rw [Object.bytes, Memory.holds_append] at h
  obtain ⟨hkey, hvalue⟩ := Object.holds_header h.1
  have hkeySize : read1Byte m (4 + offset) = o.key.length := by rw [read1Byte_toNat, hkey]
  have hvalueSize : read3Bytes m (4 + offset + 1) = o.valueSize := hvalue
  simp only [nextKeyValueInBatchKeyValueHeader, hheader, hkeySize, hvalueSize, and_self]

/-- Behind a split, the next record is looked for too far on. -/
theorem lt_next_of_split (hheader : header.keyValues = 4) (h : m.Holds (4 + offset) o.bytes)
    (hlarge : o.isLarge = true) (hlt : offset + (4 + o.key.length + o.valueSize) < 2 ^ 32) :
    offset + o.size < (nextKeyValueInBatchKeyValueHeader m header offset).2 := by
  have hsize := o.size_le
  have hwhole := o.isLarge_iff.mp hlarge
  rw [(nextKeyValue_eq hheader h).2.2.2, u32_eq hlt]
  omega

/-- The record of an object that is stored whole. -/
theorem nextKeyValue_bytes (hheader : header.keyValues = 4) (hplain : o.isLarge = false)
    (h : m.Holds (4 + offset) o.bytes) (hlt : offset + o.bytes.length < 2 ^ 32) :
    let next := nextKeyValueInBatchKeyValueHeader m header offset
    next.1.bytes m = (o.mapKey.data, o.payload) ∧ next.2 = offset + o.bytes.length := by
  have hpayload := o.payload_of_plain hplain
  have hsize := o.size_eq
  obtain ⟨hkeySize, hvalueSize, hkey, hnext⟩ := nextKeyValue_eq hheader h
  have hvalue : (nextKeyValueInBatchKeyValueHeader m header offset).1.value =
      if o.valueSize ≠ 0 then 4 + offset + 4 + o.key.length else 0 := by
    rw [← hvalueSize, ← hkey, ← hkeySize]
    rfl
  rw [hplain, if_neg Bool.false_ne_true, Object.size] at hsize
  rw [Object.bytes, List.append_assoc, Memory.holds_append, Memory.holds_append,
    Object.length_header, Object.keyBytes, hplain, if_neg Bool.false_ne_true,
    List.append_nil] at h
  dsimp only
  constructor
  · rw [NextKeyValue.bytes, hkeySize, hvalueSize, hkey, hvalue, Object.mapKey_data,
      Object.keyBytes, hplain, if_neg Bool.false_ne_true, List.append_nil]
    refine Prod.ext h.2.1 ?_
    by_cases hempty : o.valueSize = 0
    · rw [hempty] at hpayload
      rw [if_neg (not_not.mpr hempty), hempty, List.length_eq_zero_iff.mp hpayload]
      rfl
    · have hread := h.2.2
      unfold Memory.Holds at hread
      rwa [if_pos hempty, ← hpayload]
  · rw [hnext, u32_eq (by omega)]
    omega

end Records

/-! ## Messages -/

section Messages

variable {p q : Protocol} {e e' : Protocol.Envelope} {r : Input}

theorem length_le_length_flatMap {α : Type} {f : α → List UInt8} {l : List α}
    (h : ∀ a ∈ l, 0 < (f a).length) : l.length ≤ (l.flatMap f).length := by
  have hsum := List.length_le_sum_of_one_le (l.map fun a => (f a).length) fun n hn => by
    obtain ⟨a, ha, rfl⟩ := List.mem_map.mp hn
    exact h a ha
  rwa [List.length_map, ← List.length_flatMap] at hsum

/-- There is room for the number of the records. -/
theorem rest_payload {m : Memory} {n : ℕ} (hlt : 4 + n < 2 ^ 32) :
    ¬ Input.rest ⟨m, 4 + n⟩ 0 < 4 := by
  have hsize : (⟨m, 4 + n⟩ : Input).size < 2 ^ 64 := by
    dsimp only
    omega
  rw [Input.rest_eq hsize (Nat.zero_le _)]
  dsimp only
  omega

/-- The keys of a message are found, without their split offsets. -/
theorem readKeys_eq {keys : List Key}
    (hr : Received (p.batchMessage e keys.length (keys.flatMap keyRecord)) r) (he : e.Fits q)
    (hkeys : ∀ key ∈ keys, key.size < 2 ^ 8) (hlt : 4 + (keys.flatMap keyRecord).length < 2 ^ 32) :
    q.readKeys r = some (keys.map fun key => key.data.take key.size) := by
  obtain ⟨hpayload, hcount, hrecords⟩ := payload_eq hr he hlt
  have hlen : keys.length ≤ (keys.flatMap keyRecord).length :=
    length_le_length_flatMap fun key _ => by
      rw [length_keyRecord]
      omega
  have hread := iterate_eq (nextKeyInBatchKeyHeader (advance r.bytes 16) ⟨keys.length, 4⟩)
    (fun k => k.bytes (advance r.bytes 16))
    (fun key hkey offset h hlt => nextKey_eq rfl (hkeys key hkey) h hlt) hrecords
    (by omega : 0 + (keys.flatMap keyRecord).length < 2 ^ 32)
  rw [Protocol.readKeys, hpayload, Option.bind_eq_bind, Option.bind_some, parseBatchKeyHeader,
    if_neg (rest_payload hlt)]
  dsimp only
  rw [read4Bytes_eq hcount (by omega)]
  exact congrArg some hread

variable {cfg : GlobalConfig} {objs : List (Object cfg)}

theorem take_data {key : Key} (h : key.isLarge = false) : key.data.take key.size = key.data := by
  have hdata := key.length_data
  rw [Key.extent, h, if_neg Bool.false_ne_true] at hdata
  exact List.take_of_length_le hdata.le

/-- The objects of a message are found if they are stored whole, and their keys are sent back. -/
theorem readKeyValues_eq
    (hr : Received (p.batchMessage e objs.length (objs.flatMap Object.bytes)) r)
    (he : e.Fits q) (hplain : ∀ o ∈ objs, o.isLarge = false)
    (hlt : 4 + (objs.flatMap Object.bytes).length < 2 ^ 32) :
    q.readKeyValues r = some (objs.map fun o => (o.mapKey.data, o.payload)) ∧
      q.acknowledge e' r = some (q.batchMessage e' objs.length
        (objs.flatMap fun o => keyRecord o.mapKey)) := by
  obtain ⟨hpayload, hcount, hrecords⟩ := payload_eq hr he hlt
  have hlen : objs.length ≤ (objs.flatMap Object.bytes).length :=
    length_le_length_flatMap fun o _ => by
      have hsize := o.le_size
      rw [Object.size] at hsize
      omega
  let next := nextKeyValueInBatchKeyValueHeader (advance r.bytes 16) ⟨objs.length, 4⟩
  have hnext : ∀ o ∈ objs, ∀ offset, (advance r.bytes 16).Holds (4 + offset) o.bytes →
      offset + o.bytes.length < 2 ^ 32 →
      (next offset).1.bytes (advance r.bytes 16) = (o.mapKey.data, o.payload) ∧
        (next offset).2 = offset + o.bytes.length :=
    fun o ho offset h hlt => nextKeyValue_bytes rfl (hplain o ho) h hlt
  have hread := iterate_eq next (fun kv => kv.bytes (advance r.bytes 16)) hnext hrecords
    (by omega : 0 + (objs.flatMap Object.bytes).length < 2 ^ 32)
  have hnext' : ∀ o ∈ objs, ∀ offset, (advance r.bytes 16).Holds (4 + offset) o.bytes →
      offset + o.bytes.length < 2 ^ 32 →
      beBytes 1 (next offset).1.keySize ++
          (advance r.bytes 16).read (next offset).1.key (next offset).1.keySize =
        keyRecord o.mapKey ∧ (next offset).2 = offset + o.bytes.length := by
    intro o ho offset h hlt
    obtain ⟨hbytes, hoffset⟩ := hnext o ho offset h hlt
    have hkeySize : (next offset).1.keySize = o.key.length := (nextKeyValue_eq rfl h).1
    have hkey : (advance r.bytes 16).read (next offset).1.key (next offset).1.keySize =
        o.mapKey.data := congrArg Prod.fst hbytes
    refine ⟨?_, hoffset⟩
    rw [hkey, hkeySize, keyRecord, take_data (by rw [Object.mapKey_isLarge, hplain o ho]),
      Object.mapKey_size]
  have hreply := iterate_eq next
    (fun kv => beBytes 1 kv.keySize ++ (advance r.bytes 16).read kv.key kv.keySize) hnext' hrecords
    (by omega : 0 + (objs.flatMap Object.bytes).length < 2 ^ 32)
  have hrest := rest_payload (m := advance r.bytes 16) hlt
  constructor
  · rw [Protocol.readKeyValues, hpayload, Option.bind_eq_bind, Option.bind_some,
      parseBatchKeyValueHeader, if_neg hrest]
    dsimp only
    rw [read4Bytes_eq hcount (by omega)]
    exact congrArg some hread
  · rw [Protocol.acknowledge, hpayload, Option.bind_eq_bind, Option.bind_some,
      parseBatchKeyValueHeader, if_neg hrest]
    dsimp only
    have hrecords := congrArg List.flatten hreply
    rw [← List.flatMap_def, ← List.flatMap_def] at hrecords
    rw [read4Bytes_eq hcount (by omega), Option.bind_eq_bind, Option.bind_some, ← hrecords]
    rfl

end Messages

/-! ## Delivery -/

/-- The keys arrive: the loop around the generator ends, and the keys that are found in the
messages are those that were sent, each once and with its split offset. -/
def KeysDelivered (p q : Protocol) (e : Protocol.Envelope) (keys : List Key) : Prop :=
  ∃ fuel msgs, sendBatches (p.generateBatchKeyHeader e) fuel keys = some msgs ∧
    ∀ rs, List.Forall₂ Received msgs rs →
      ∃ read, List.Forall₂ (fun r ks => q.readKeys r = some ks) rs read ∧
        read.flatten.Perm (keys.map Key.data)

/-- The answer to the message lists the keys that are found in it. -/
def Answered (p q : Protocol) (e' : Protocol.Envelope) (r : Input)
    (keyValues : List (List UInt8 × List UInt8)) : Prop :=
  ∃ reply, q.acknowledge e' r = some reply ∧
    ∀ r', Received reply r' → ∃ ks, p.readKeys r' = some ks ∧ ks.Perm (keyValues.map Prod.fst)

/-- The objects arrive: the loop around the generator ends, the keys and values that are found in
the messages are those of the objects, each once, and every message is answered with its keys. -/
def KeyValuesDelivered {cfg : GlobalConfig} (p q : Protocol) (e e' : Protocol.Envelope)
    (values : KeyMap Memory) (objs : List (Object cfg)) : Prop :=
  ∃ fuel msgs,
    sendBatches (p.generateBatchKeyValueHeader e cfg values) fuel (objs.map Object.mapKey) =
      some msgs ∧
    ∀ rs, List.Forall₂ Received msgs rs →
      ∃ read, List.Forall₂ (fun r keyValues => q.readKeyValues r = some keyValues ∧
          Answered p q e' r keyValues) rs read ∧
        read.flatten.Perm (objs.map fun o => (o.mapKey.data, o.payload))

/-- The objects stand in the map under their keys. -/
def Stored {cfg : GlobalConfig} (values : KeyMap Memory) (objs : List (Object cfg)) : Prop :=
  ∀ o ∈ objs, ∃ data, values.find o.mapKey = some data ∧ data.Holds 0 o.bytes

section Delivery

variable {p q : Protocol} {e e' : Protocol.Envelope}

/-- The messages are received one by one. -/
theorem forall₂_of_received {β : Type} {message : β → List UInt8} {bs : List β} {rs : List Input}
    {P : Input → β → Prop} (h : List.Forall₂ Received (bs.map message) rs)
    (hP : ∀ c ∈ bs, ∀ r, Received (message c) r → P r c) : List.Forall₂ P rs bs := by
  rw [List.forall₂_map_left_iff] at h
  have hmem := (List.forall₂_and_left bs rs).mpr ⟨fun c hc => hc, h⟩
  exact List.Forall₂.flip (hmem.imp fun c r hc => hP c hc.1 r hc.2)

/-- Copies of the messages in the buffers of the receiver. -/
theorem exists_received (msgs : List (List UInt8)) : ∃ rs, List.Forall₂ Received msgs rs := by
  refine ⟨msgs.map fun msg => ⟨(0 : Memory).write 0 msg, msg.length⟩, ?_⟩
  rw [List.forall₂_map_right_iff, List.forall₂_same]
  exact fun msg _ => ⟨Memory.holds_write 0 0 msg, rfl⟩

theorem length_batch_lt {ι : Type} {encode : ι → List UInt8} {fuel : ℕ} {objs : List ι}
    {bs : List (List ι)}
    (h : batches p.bufferSize (fun o => (encode o).length) 20 fuel objs = some bs) {c : List ι}
    (hc : c ∈ bs) : 4 + (c.flatMap encode).length < 2 ^ 32 := by
  have hp := p.bufferSize_lt
  rw [List.length_flatMap]
  rcases eq_or_ne c [] with rfl | hne
  · norm_num
  · have hle := sum_le_of_mem_batches h hc hne
    omega

section Keys

variable {keys : List Key}

theorem sendBatches_keys (fuel : ℕ) : sendBatches (p.generateBatchKeyHeader e) fuel keys =
    (batches p.bufferSize (fun key => (keyRecord key).length) 20 fuel keys).map
      (List.map fun c => p.batchMessage e c.length (c.flatMap keyRecord)) := by
  have h : sendBatches (p.generateBatchKeyHeader e) fuel (keys.map id) =
      (batches p.bufferSize (fun key => (keyRecord key).length) 20 fuel keys).map
        (List.map fun c => p.batchMessage e c.length (c.flatMap keyRecord)) :=
    sendBatches_eq (fun _ _ => rfl) p e fuel
  rwa [List.map_id] at h

/-- What is read of the batches: all the keys, without their split offsets. -/
theorem readBatches_keys {fuel : ℕ} {bs : List (List Key)} {rs : List Input}
    (hbs : batches p.bufferSize (fun key => (keyRecord key).length) 20 fuel keys = some bs)
    (he : e.Fits q) (hkeys : ∀ key ∈ keys, key.size < 2 ^ 8)
    (hrs : List.Forall₂ Received
      (bs.map fun c => p.batchMessage e c.length (c.flatMap keyRecord)) rs) :
    List.Forall₂ (fun r ks => q.readKeys r = some ks) rs
      (bs.map (List.map fun key => key.data.take key.size)) := by
  rw [List.forall₂_map_right_iff]
  refine forall₂_of_received hrs fun c hc r hr => readKeys_eq hr he (fun key hkey => ?_)
    (length_batch_lt hbs hc)
  apply hkeys key
  rw [← batches_flatten hbs]
  exact List.mem_flatten_of_mem hc hkey

/-- Without their split offsets, the keys of splits are not the keys that were sent. -/
theorem isLarge_eq_false_of_perm
    (h : (keys.map fun key => key.data.take key.size).Perm (keys.map Key.data)) :
    ∀ key ∈ keys, key.isLarge = false := by
  have hlength := (h.map List.length).sum_eq
  rw [List.map_map, List.map_map] at hlength
  have hle : ∀ key : Key, (key.data.take key.size).length ≤ key.data.length := fun key => by
    rw [List.length_take]
    exact Nat.min_le_right _ _
  intro key hkey
  by_contra hlarge
  refine absurd hlength (ne_of_lt (List.sum_lt_sum _ _ (fun key _ => hle key) ⟨key, hkey, ?_⟩))
  have hdata := key.length_data
  rw [Bool.not_eq_false] at hlarge
  rw [Key.extent, if_pos hlarge] at hdata
  show (key.data.take key.size).length < key.data.length
  rw [List.length_take]
  omega

/-- Keys arrive exactly if none is that of a split and each fits into the buffer. -/
theorem keysDelivered_iff (he : e.Fits q) (hkeys : ∀ key ∈ keys, key.size < 2 ^ 8) :
    KeysDelivered p q e keys ↔
      ∀ key ∈ keys, key.isLarge = false ∧ 21 + key.size ≤ p.bufferSize := by
  constructor
  · rintro ⟨fuel, msgs, hsend, hread⟩
    rw [sendBatches_keys] at hsend
    obtain ⟨bs, hbs, rfl⟩ := Option.map_eq_some_iff.mp hsend
    obtain ⟨rs, hrs⟩ := exists_received
      (bs.map fun c => p.batchMessage e c.length (c.flatMap keyRecord))
    obtain ⟨read, hrs', hperm⟩ := hread rs hrs
    obtain rfl := List.right_unique_forall₂' (fun _ _ _ h1 h2 => Option.some.inj (h1.symm.trans h2))
      hrs' (readBatches_keys hbs he hkeys hrs)
    rw [← List.map_flatten, batches_flatten hbs] at hperm
    intro key hkey
    have hfit := le_of_batches hbs hkey
    rw [length_keyRecord] at hfit
    exact ⟨isLarge_eq_false_of_perm hperm key hkey, by omega⟩
  · intro h
    have hfit : ∀ key ∈ keys, 20 + (keyRecord key).length ≤ p.bufferSize := by
      intro key hkey
      rw [length_keyRecord, ← Nat.add_assoc]
      exact (h key hkey).2
    obtain ⟨bs, hbs⟩ := exists_batches hfit (Nat.lt_succ_self _)
    refine ⟨_, _, by rw [sendBatches_keys, hbs, Option.map_some], fun rs hrs => ?_⟩
    refine ⟨_, readBatches_keys hbs he hkeys hrs, ?_⟩
    rw [← List.map_flatten, batches_flatten hbs,
      List.map_congr_left fun key hkey => take_data (h key hkey).1]

end Keys

section KeyValues

variable {cfg : GlobalConfig} {values : KeyMap Memory} {objs : List (Object cfg)}

theorem sendBatches_keyValues (h : Stored values objs) (fuel : ℕ) :
    sendBatches (p.generateBatchKeyValueHeader e cfg values) fuel (objs.map Object.mapKey) =
      (batches p.bufferSize (fun o => o.bytes.length) 20 fuel objs).map
        (List.map fun c => p.batchMessage e c.length (c.flatMap Object.bytes)) := by
  refine sendBatches_eq (fun o ho => ?_) p e fuel
  obtain ⟨data, hfind, hdata⟩ := h o ho
  rw [hfind, Option.map_some, Object.sizeAt_eq hdata]
  exact congrArg some hdata

/-- Each object fits into the buffer if the loop around the generator ends. -/
theorem le_of_keyValuesDelivered (hstored : Stored values objs)
    (h : KeyValuesDelivered p q e e' values objs) : ∀ o ∈ objs, 20 + o.size ≤ p.bufferSize := by
  obtain ⟨fuel, msgs, hsend, -⟩ := h
  rw [sendBatches_keyValues hstored] at hsend
  obtain ⟨bs, hbs, -⟩ := Option.map_eq_some_iff.mp hsend
  exact fun o ho => le_of_batches hbs ho

/-- A message of objects that are stored whole is answered with their keys. -/
theorem answered_of_plain {r : Input} (he : e.Fits q) (he' : e'.Fits p)
    (hplain : ∀ o ∈ objs, o.isLarge = false)
    (hr : Received (p.batchMessage e objs.length (objs.flatMap Object.bytes)) r)
    (hlt : 4 + (objs.flatMap Object.bytes).length < 2 ^ 32) :
    Answered p q e' r (objs.map fun o => (o.mapKey.data, o.payload)) := by
  have hle : (objs.flatMap fun o => keyRecord o.mapKey).length ≤
      (objs.flatMap Object.bytes).length := by
    rw [List.length_flatMap, List.length_flatMap]
    refine List.sum_le_sum fun o _ => ?_
    have hsize := o.le_size
    rw [Object.size] at hsize
    rw [length_keyRecord, Object.mapKey_size]
    omega
  refine ⟨_, (readKeyValues_eq hr he hplain hlt).2, fun r' hr' => ⟨_, ?_, List.Perm.refl _⟩⟩
  have hkeys : ∀ key ∈ objs.map Object.mapKey, key.isLarge = false ∧ key.size < 2 ^ 8 := by
    intro key hkey
    obtain ⟨o, ho, rfl⟩ := List.mem_map.mp hkey
    have hlen := o.length_key
    rw [Object.mapKey_isLarge, Object.mapKey_size]
    exact ⟨hplain o ho, by omega⟩
  have hflat : (objs.map Object.mapKey).flatMap keyRecord =
      objs.flatMap fun o => keyRecord o.mapKey := List.flatMap_map _ _ _
  rw [← hflat, ← List.length_map Object.mapKey] at hr'
  have hread := readKeys_eq hr' he' (fun key hkey => (hkeys key hkey).2) (by
    rw [hflat]
    omega)
  rw [hread, List.map_congr_left fun key hkey => take_data (hkeys key hkey).1, List.map_map,
    List.map_map]
  rfl

/-- Objects that are stored whole and fit into the buffer arrive. -/
theorem keyValuesDelivered_of_plain (he : e.Fits q) (he' : e'.Fits p) (hstored : Stored values objs)
    (hplain : ∀ o ∈ objs, o.isLarge = false) (hfit : ∀ o ∈ objs, 20 + o.size ≤ p.bufferSize) :
    KeyValuesDelivered p q e e' values objs := by
  have hfit' : ∀ o ∈ objs, 20 + o.bytes.length ≤ p.bufferSize := hfit
  obtain ⟨bs, hbs⟩ := exists_batches hfit' (Nat.lt_succ_self _)
  refine ⟨_, _, by rw [sendBatches_keyValues hstored, hbs, Option.map_some], fun rs hrs => ?_⟩
  refine ⟨bs.map (List.map fun o => (o.mapKey.data, o.payload)), ?_, ?_⟩
  · rw [List.forall₂_map_right_iff]
    refine forall₂_of_received hrs fun c hc r hr => ?_
    have hplain' : ∀ o ∈ c, o.isLarge = false := fun o ho => by
      apply hplain o
      rw [← batches_flatten hbs]
      exact List.mem_flatten_of_mem hc ho
    have hlt := length_batch_lt hbs hc
    have hread : _ ∧ q.acknowledge e' r = _ := readKeyValues_eq hr he hplain' hlt
    exact ⟨hread.1, answered_of_plain he he' hplain' hr hlt⟩
  · rw [← List.map_flatten, batches_flatten hbs]

end KeyValues

/-- The keys go from `c` to `s`, the objects from `s` to `t`, and the answers back to `s`. All of
them arrive exactly if no object is a split and each fits into the buffers. -/
theorem batches_delivered_iff {cfg : GlobalConfig} {c s t : Protocol}
    {eKeys eValues eReply : Protocol.Envelope} {values : KeyMap Memory} {objs : List (Object cfg)}
    (hKeys : eKeys.Fits s) (hValues : eValues.Fits t) (hReply : eReply.Fits s)
    (hstored : Stored values objs) :
    KeysDelivered c s eKeys (objs.map Object.mapKey) ∧
        KeyValuesDelivered s t eValues eReply values objs ↔
      ∀ o ∈ objs, o.isLarge = false ∧ 21 + o.key.length ≤ c.bufferSize ∧
        20 + o.size ≤ s.bufferSize := by
  have hsize : ∀ key ∈ objs.map Object.mapKey, key.size < 2 ^ 8 := by
    intro key hkey
    obtain ⟨o, -, rfl⟩ := List.mem_map.mp hkey
    have hlen := o.length_key
    rw [Object.mapKey_size]
    omega
  rw [keysDelivered_iff hKeys hsize, List.forall_mem_map]
  constructor
  · rintro ⟨hkeys, hdelivered⟩ o ho
    have hkey := hkeys o ho
    rw [Object.mapKey_isLarge, Object.mapKey_size] at hkey
    exact ⟨hkey.1, hkey.2, le_of_keyValuesDelivered hstored hdelivered o ho⟩
  · intro h
    constructor
    · intro o ho
      rw [Object.mapKey_isLarge, Object.mapKey_size]
      exact ⟨(h o ho).1, (h o ho).2.1⟩
    · exact keyValuesDelivered_of_plain hValues hReply hstored (fun o ho => (h o ho).1)
        fun o ho => (h o ho).2.2

end Delivery

/-- A party whose buffer has room for one of the small objects below. -/
def smallParty (sender receiver : UInt8) : Protocol := ⟨sender, receiver, 30, 0, by decide⟩

/-- Two small objects. -/
def smallObjects : List (Object .smallest) :=
  [.plain [1] [5, 6] (by decide) (by decide), .plain [2] [7, 8, 9] (by decide) (by decide)]

/-- The map that they are stored in. -/
def storeOf {cfg : GlobalConfig} : List (Object cfg) → KeyMap Memory
  | [] => ∅
  | o :: objs => (storeOf objs).assign o.mapKey (Memory.place 0 o.bytes)

theorem stored_smallObjects : Stored (storeOf smallObjects) smallObjects := by
  intro o ho
  simp only [smallObjects, List.mem_cons, List.not_mem_nil, or_false] at ho
  refine ⟨Memory.place 0 o.bytes, ?_, Memory.holds_write 0 0 o.bytes⟩
  simp only [smallObjects, storeOf, KeyMap.find_assign]
  rcases ho with rfl | rfl
  · rw [if_pos rfl]
  · rw [if_neg (by decide), if_pos rfl]

theorem batches_delivered_small :
    KeysDelivered (smallParty 0x08 0x20) (smallParty 0x18 0x60) ⟨0x01, 0x60, 0x36, 1, 9⟩
        (smallObjects.map Object.mapKey) ∧
      KeyValuesDelivered (smallParty 0x18 0x60) (smallParty 0x18 0x60) ⟨0x01, 0x60, 0x62, 1, 9⟩
        ⟨0x02, 0x60, 0x62, 1, 9⟩ (storeOf smallObjects) smallObjects :=
  (batches_delivered_iff ⟨by decide, by decide, by decide, by decide⟩
    ⟨by decide, by decide, by decide, by decide⟩ ⟨by decide, by decide, by decide, by decide⟩
    stored_smallObjects).mpr (by decide)

/-- The first split of an object whose value has 100 bytes. -/
def firstSplit : Object .smallest where
  key := [1]
  valueSize := 100
  splitOffset := 0
  payload := List.replicate 24 7
  length_key := by decide
  valueSize_lt := by decide
  splitOffset_lt := fun _ => by decide
  splitOffset_eq := fun _ => rfl
  room := fun _ => by decide
  length_payload := by decide

/-- A party with the buffer that `getSuggestedBufferSize` asks for. -/
def party (sender receiver : UInt8) : Protocol := ⟨sender, receiver, 65536, 0, by norm_num⟩

/-- A split does not arrive, however large the buffers are. -/
theorem batches_lose_split :
    Stored (storeOf [firstSplit]) [firstSplit] ∧
    ¬ (KeysDelivered (party 0x08 0x20) (party 0x18 0x60) ⟨0x01, 0x60, 0x36, 1, 9⟩
          ([firstSplit].map Object.mapKey) ∧
        KeyValuesDelivered (party 0x18 0x60) (party 0x18 0x60) ⟨0x01, 0x60, 0x62, 1, 9⟩
          ⟨0x02, 0x60, 0x62, 1, 9⟩ (storeOf [firstSplit]) [firstSplit]) := by
  constructor
  · intro o ho
    rw [List.mem_singleton.mp ho]
    refine ⟨Memory.place 0 firstSplit.bytes, ?_, Memory.holds_write 0 0 firstSplit.bytes⟩
    rw [storeOf, KeyMap.find_assign, if_pos rfl]
  · rintro ⟨hkeys, -⟩
    have hfits : Protocol.Envelope.Fits ⟨0x01, 0x60, 0x36, 1, 9⟩ (party 0x18 0x60) :=
      ⟨by decide, by decide, by decide, by decide⟩
    have hplain := (keysDelivered_iff hfits (by decide)).mp hkeys firstSplit.mapKey
      List.mem_cons_self
    exact absurd hplain.1 (by decide)

end MemEC.Common
