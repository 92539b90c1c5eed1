import MemEC.Common.Protocol
import MemEC.Server.SealChunk

/-!
# SEAL_CHUNK messages

The message is written in one go into a send buffer: the protocol header, the
ids of the chunk and the number of records, and the records. The record of an
object can be longer than the object, but never by more than two bytes, so
that the records of a full chunk fit into the buffer twice as large.

There are two parsers of the records. The loop of `ParityChunkBuffer::seal`
counts the bytes that are left down to zero, and
`Protocol::parseChunkSealHeaderData` reads one record.
-/

namespace MemEC.Server

open MemEC.Lib MemEC.Common KeyValue ChunkUtil

variable {cfg : GlobalConfig}

/-! ## The message fits -/

/-- `generateChunkSealHeader`, up to the data. The `16` is `PROTO_CHUNK_SEAL_SIZE`. -/
def generateChunkSealHeader (p : Protocol) (magic receiver opcode : UInt8)
    (instanceId requestId listId stripeId chunkId count dataLength : ℕ) : List UInt8 :=
  p.generateHeader magic receiver opcode (16 + dataLength) instanceId requestId 0 false ++
    (beBytes 4 listId ++ beBytes 4 stripeId ++ beBytes 4 chunkId ++ beBytes 4 count)

/-- The message that `ServerProtocol::reqSealChunk` leaves in the buffer. -/
def sealChunkMessage (cfg : GlobalConfig) (p : Protocol) (instanceId requestId : ℕ) (chunk : Chunk)
    (startPos : ℕ) : List UInt8 :=
  let r := reqSealChunk cfg chunk startPos
  generateChunkSealHeader p 0x01 0x60 0x51 instanceId requestId r.listId r.stripeId r.chunkId
    r.count r.data.length ++ r.data

theorem length_sealChunkMessage (p : Protocol) (instanceId requestId : ℕ) (chunk : Chunk)
    (startPos : ℕ) : (sealChunkMessage cfg p instanceId requestId chunk startPos).length =
      32 + (reqSealChunk cfg chunk startPos).data.length := by
  simp only [sealChunkMessage, generateChunkSealHeader, List.length_append,
    Protocol.length_generateHeader, length_beBytes]

/-- The record of an object is at most two bytes longer than the object. -/
theorem length_bytes_sealRecord_le (p : ℕ × Object cfg) :
    (sealRecord p).bytes.length ≤ p.2.size + 2 := by
  have hsize := p.2.size_eq
  have hkey : p.2.mapKey.size = p.2.key.length := p.2.mapKey_size
  have hlarge : p.2.mapKey.isLarge = p.2.isLarge := p.2.mapKey_isLarge
  rw [SealRecord.length_bytes, sealRecord, hkey, hlarge, Key.extent]
  omega

theorem listed_of_ends {m : Memory} {ptr : ℕ} (h : NextEnds cfg m ptr) (fuel : ℕ) :
    listed cfg m fuel ptr = [] := by
  cases fuel with
  | zero => rfl
  | succ fuel => rw [listed, next_of_ends h]

/-- An object without a key ends the walk. -/
theorem nextEnds_of_key_nil {m : Memory} {ptr : ℕ} {o : Object cfg} (h : m.Holds ptr o.bytes)
    (hk : o.key = []) : NextEnds cfg m ptr := by
  intro _
  have hbytes : o.bytes = UInt8.ofNat o.key.length :: (beBytes 3 o.valueSize ++
      o.keyBytes ++ o.payload) := by
    simp only [Object.bytes, Object.header, List.cons_append, List.append_assoc]
  rw [hbytes, Memory.holds_cons, hk] at h
  exact h.1

/-- An object of the smallest size, five bytes, has a record of seven. -/
theorem length_listed_le {m : Memory} {objs : List (Object cfg)} {ptr : ℕ} (fuel : ℕ)
    (h : m.Holds ptr (layout objs)) (hfit : ptr + (layout objs).length ≤ cfg.chunkSize)
    (hend : NextEnds cfg m (ptr + (layout objs).length)) :
    5 * ((listed cfg m fuel ptr).flatMap SealRecord.bytes).length ≤ 7 * (layout objs).length := by
  induction objs generalizing ptr fuel with
  | nil =>
    have hend' : NextEnds cfg m ptr := hend
    rw [listed_of_ends hend']
    exact Nat.zero_le _
  | cons o objs ih =>
    rw [layout_cons, Memory.holds_append] at h
    rw [length_layout_cons, ← Nat.add_assoc] at hend hfit
    rw [length_layout_cons]
    by_cases hk : o.key = []
    · rw [listed_of_ends (nextEnds_of_key_nil h.1 hk)]
      exact Nat.zero_le _
    · cases fuel with
      | zero => exact Nat.zero_le _
      | succ fuel =>
        have hrest : 5 * ((listed cfg m fuel (ptr + o.size)).flatMap SealRecord.bytes).length ≤
            7 * (layout objs).length := ih fuel h.2 hfit hend
        have hrecord : (sealRecord (ptr, o)).bytes.length ≤ o.size + 2 :=
          length_bytes_sealRecord_le (ptr, o)
        have hsize := Object.Visible.lt_size (o := o) (Or.inl hk)
        have hlisted : listed cfg m (fuel + 1) ptr =
            sealRecord (ptr, o) :: listed cfg m fuel (ptr + o.size) := by
          rw [listed, next_of_holds h.1 hk (by omega)]
          simp only [Object.ofMemory_eq h.1, sealRecord]
        rw [hlisted, List.flatMap_cons, List.length_append]
        omega

/-- At least twice the chunk, and the header of a request twice. -/
theorem le_getSuggestedBufferSize (cfg : GlobalConfig) :
    2 * (20 + cfg.keySize + cfg.chunkSize) ≤
      getSuggestedBufferSize cfg.keySize cfg.chunkSize false := by
  have hc := cfg.chunkSize_le
  have hk := cfg.keySize_le
  unfold getSuggestedBufferSize
  rw [if_neg Bool.false_ne_true, u32_eq (by omega)]
  dsimp only
  split_ifs <;> omega

/-- The request for a chunk of objects, one behind the other and some of them deleted, from any of
them on, fits into the send buffer. The first bound is that of the records that have been written
after some turns of the loop. -/
theorem sealChunkMessage_fits (p : Protocol) (instanceId requestId : ℕ) {chunk : Chunk}
    {before after : List (Object cfg)} (h : chunk.data.Holds 0 (layout (before ++ after)))
    (hfit : (layout (before ++ after)).length ≤ cfg.chunkSize)
    (hend : NextEnds cfg chunk.data (layout (before ++ after)).length) :
    let startPos := (layout before).length
    let size := getSuggestedBufferSize cfg.keySize cfg.chunkSize false
    (∀ turns, 32 + (reqSealChunkLoop cfg chunk.data turns startPos (0, [])).2.length ≤ size) ∧
      (reqSealChunk cfg chunk startPos).data.length ≤ size ∧
      (sealChunkMessage cfg p instanceId requestId chunk startPos).length ≤ size := by
  have hsize := le_getSuggestedBufferSize cfg
  rw [layout_append, Memory.holds_append, Nat.zero_add] at h
  rw [layout_append, List.length_append] at hfit hend
  have hturns : ∀ turns, 32 + (reqSealChunkLoop cfg chunk.data turns (layout before).length
      (0, [])).2.length ≤ getSuggestedBufferSize cfg.keySize cfg.chunkSize false := by
    intro turns
    have hle := length_listed_le turns h.2 hfit hend
    rw [reqSealChunkLoop_eq, List.nil_append]
    dsimp only
    omega
  have hdata := hturns cfg.chunkSize
  have hrequest : (reqSealChunk cfg chunk (layout before).length).data =
      (reqSealChunkLoop cfg chunk.data cfg.chunkSize (layout before).length (0, [])).2 := rfl
  dsimp only
  rw [length_sealChunkMessage, hrequest]
  exact ⟨hturns, by omega, hdata⟩

/-- An object of five bytes. -/
def smallestObject : Object .smallest := .plain [113] [] (by decide) (by decide)

def smallestServer : Protocol :=
  .init 0x18 0x60 0 GlobalConfig.smallest.keySize_le GlobalConfig.smallest.chunkSize_le false

/-- A chunk of 32 bytes with six of them. -/
def smallestObjects : Chunk :=
  ⟨0, 0, 0, .place 0 (layout ([smallestObject] ++ List.replicate 5 smallestObject))⟩

/-- The request lists them from the second one on. -/
theorem sealChunkMessage_fits_smallestObjects :
    (sealChunkMessage .smallest smallestServer 1 1 smallestObjects
      (layout [smallestObject]).length).length ≤ smallestServer.bufferSize := by
  have hholds : smallestObjects.data.Holds 0
      (layout ([smallestObject] ++ List.replicate 5 smallestObject)) := Memory.holds_write 0 0 _
  have hend : NextEnds .smallest smallestObjects.data
      (layout ([smallestObject] ++ List.replicate 5 smallestObject)).length :=
    fun hlt => absurd hlt (by decide)
  exact (sealChunkMessage_fits _ 1 1 hholds (by decide) hend).2.2

/-! ## The two parsers -/

/-- `ChunkSealHeader`. -/
structure ChunkSealHeader where
  listId : ℕ
  stripeId : ℕ
  chunkId : ℕ
  count : ℕ

/-- `Protocol::parseChunkSealHeader`. -/
def parseChunkSealHeader (p : Protocol) (buf : Option Memory) (size offset : ℕ) :
    Option ChunkSealHeader :=
  let input := p.input buf size
  let m := input.bytes
  if input.rest offset < 16 then none
  else some ⟨read4Bytes m offset, read4Bytes m (offset + 4), read4Bytes m (offset + 8),
    read4Bytes m (offset + 12)⟩

/-- `ChunkSealHeaderData`, with the address of the key. -/
structure ChunkSealHeaderData where
  keySize : ℕ
  offset : ℕ
  isLarge : Bool
  key : ℕ

/-- `Protocol::parseChunkSealHeaderData`, which does not set the flag of the header. -/
def parseChunkSealHeaderData (p : Protocol) (header : ChunkSealHeaderData) (buf : Option Memory)
    (size offset : ℕ) : Option ChunkSealHeaderData :=
  let input := p.input buf size
  let m := input.bytes
  if input.rest offset < 6 then none
  else
    let header := { header with
      keySize := read1Byte m offset
      offset := read4Bytes m (offset + 1)
      key := offset + 5 }
    if 6 + header.keySize ≤ input.rest offset then some header else none

/-- What the header says. -/
def ChunkSealHeaderData.record (header : ChunkSealHeaderData) (m : Memory) : SealRecord :=
  ⟨.ofMemory m header.key header.keySize header.isLarge, header.offset⟩

/-- The record at `ptr`, as the loop of `ParityChunkBuffer::seal` reads it. -/
def sealRecordAt (m : Memory) (ptr : ℕ) : SealRecord :=
  ⟨.ofMemory m (ptr + 6) (m ptr).toNat (m (ptr + 5) != 0), m.readBe (ptr + 1) 4⟩

/-- The loop of `ParityChunkBuffer::seal`, with the counter as the `size_t` that it is: the records
that it reads, all their bytes, and their addresses. It is `none` when the loop has not ended after
so many turns. -/
def sealLoop (m : Memory) : ℕ → ℕ → ℕ → Option (List (ℕ × SealRecord))
  | 0, _, sealDataSize => if sealDataSize = 0 then some [] else none
  | turns + 1, ptr, sealDataSize =>
    if sealDataSize = 0 then some []
    else
      let r := sealRecordAt m ptr
      let extent := 6 + Key.extent r.key.size r.key.isLarge
      (sealLoop m turns (ptr + extent) (sub64 sealDataSize extent)).map ((ptr, r) :: ·)

/-- The loop over the payload at the start of the memory ends, and has read inside the payload. -/
def SealsInside (m : Memory) (size : ℕ) : Prop :=
  ∃ turns records, sealLoop m turns 16 (sub64 size 16) = some records ∧
    ∀ r ∈ records, r.1 + r.2.bytes.length ≤ size

/-- The bytes of one record: as many as its key size and its flag say. -/
def WholeRecord (bs : List UInt8) : Prop :=
  6 ≤ bs.length ∧ bs.length = 6 + Key.extent (bs.getD 0 0).toNat (bs.getD 5 0 != 0)

/-- The bytes are those of records, one behind the other. -/
def WholeRecords (bs : List UInt8) : Prop :=
  ∃ records : List (List UInt8), bs = records.flatten ∧ ∀ r ∈ records, WholeRecord r

section Loop

variable {m : Memory} {ptr turns : ℕ}

theorem getD_of_holds {bs : List UInt8} {i : ℕ} (h : m.Holds ptr bs) (hi : i < bs.length) :
    bs.getD i 0 = m (ptr + i) := by
  rw [List.getD_eq_getElem?_getD, List.getElem?_eq_getElem hi, Option.getD_some]
  exact (Memory.holds_iff.mp h i hi).symm

theorem wholeRecord_iff {bs : List UInt8} (h : m.Holds ptr bs) : WholeRecord bs ↔
    6 ≤ bs.length ∧ bs.length = (sealRecordAt m ptr).bytes.length := by
  refine and_congr_right fun hlen => ?_
  rw [getD_of_holds h (by omega), getD_of_holds h (by omega), SealRecord.length_bytes]
  rfl

/-- Whole records take the counter down to zero. -/
theorem exists_sealLoop_of_whole {records : List (List UInt8)} (h : m.Holds ptr records.flatten)
    (hwhole : ∀ r ∈ records, WholeRecord r) (hlt : records.flatten.length < 2 ^ 64) :
    ∃ turns rs, sealLoop m turns ptr records.flatten.length = some rs ∧
      ∀ r ∈ rs, r.1 + r.2.bytes.length ≤ ptr + records.flatten.length := by
  induction records generalizing ptr with
  | nil => exact ⟨0, [], rfl, fun r hr => absurd hr List.not_mem_nil⟩
  | cons bs records ih =>
    rw [List.flatten_cons, Memory.holds_append] at h
    rw [List.flatten_cons, List.length_append] at hlt ⊢
    obtain ⟨hsix, hlen⟩ := (wholeRecord_iff h.1).mp (hwhole bs List.mem_cons_self)
    obtain ⟨turns, rs, hloop, hinside⟩ := ih h.2 (fun r hr => hwhole r (List.mem_cons_of_mem _ hr))
      (by omega)
    rw [hlen] at hloop hinside
    refine ⟨turns + 1, (ptr, sealRecordAt m ptr) :: rs, ?_, ?_⟩
    · rw [sealLoop, if_neg (by omega)]
      dsimp only
      rw [← SealRecord.length_bytes, hlen, sub64_eq (by omega) (by omega), Nat.add_sub_cancel_left,
        hloop]
      rfl
    · intro r hr
      rcases List.mem_cons.mp hr with rfl | hr
      · dsimp only
        omega
      · have := hinside r hr
        omega

/-- A loop that has read inside the bytes only has read whole records. -/
theorem whole_of_sealLoop {bs : List UInt8} {rs : List (ℕ × SealRecord)} (h : m.Holds ptr bs)
    (hlt : bs.length < 2 ^ 64) (hloop : sealLoop m turns ptr bs.length = some rs)
    (hinside : ∀ r ∈ rs, r.1 + r.2.bytes.length ≤ ptr + bs.length) : WholeRecords bs := by
  induction turns generalizing ptr bs rs with
  | zero =>
    rw [sealLoop] at hloop
    split_ifs at hloop with hzero
    exact ⟨[], List.length_eq_zero_iff.mp hzero, fun r hr => absurd hr List.not_mem_nil⟩
  | succ turns ih =>
    rw [sealLoop] at hloop
    split_ifs at hloop with hzero
    · exact ⟨[], List.length_eq_zero_iff.mp hzero, fun r hr => absurd hr List.not_mem_nil⟩
    · dsimp only at hloop
      rw [← SealRecord.length_bytes] at hloop
      obtain ⟨rest, hrest, rfl⟩ := Option.map_eq_some_iff.mp hloop
      have hfirst : ptr + (sealRecordAt m ptr).bytes.length ≤ ptr + bs.length :=
        hinside (ptr, sealRecordAt m ptr) List.mem_cons_self
      have hsix := (sealRecordAt m ptr).length_bytes
      generalize hn : (sealRecordAt m ptr).bytes.length = n at hrest hfirst hsix
      obtain ⟨hhead, htail⟩ := Memory.holds_append.mp ((List.take_append_drop n bs).symm ▸ h)
      have htake : (bs.take n).length = n := List.length_take_of_le (by omega)
      rw [htake] at htail
      rw [sub64_eq hlt (by omega), ← List.length_drop] at hrest
      obtain ⟨records, hrecords, hwhole⟩ := ih htail (by rw [List.length_drop]; omega) hrest
        fun r hr => by
          have := hinside r (List.mem_cons_of_mem _ hr)
          rw [List.length_drop]
          omega
      refine ⟨bs.take n :: records, ?_, ?_⟩
      · rw [List.flatten_cons, ← hrecords, List.take_append_drop]
      · intro r hr
        rcases List.mem_cons.mp hr with rfl | hr
        · exact (wholeRecord_iff hhead).mpr ⟨by omega, by rw [htake, hn]⟩
        · exact hwhole r hr

/-- Inside the payload, the loop reads the records of the request. -/
theorem parseSealData_of_sealLoop {n fuel : ℕ} {rs : List (ℕ × SealRecord)} (hlt : n < 2 ^ 64)
    (hloop : sealLoop m turns ptr n = some rs)
    (hinside : ∀ r ∈ rs, r.1 + r.2.bytes.length ≤ ptr + n) (hfuel : n ≤ fuel) :
    parseSealData m fuel ptr n = rs.map Prod.snd := by
  induction turns generalizing ptr n rs fuel with
  | zero =>
    rw [sealLoop] at hloop
    split_ifs at hloop with hzero
    obtain rfl := Option.some.inj hloop
    cases fuel <;> simp [parseSealData, hzero]
  | succ turns ih =>
    rw [sealLoop] at hloop
    split_ifs at hloop with hzero
    · obtain rfl := Option.some.inj hloop
      cases fuel <;> simp [parseSealData, hzero]
    · dsimp only at hloop
      obtain ⟨rest, hrest, rfl⟩ := Option.map_eq_some_iff.mp hloop
      have hfirst : ptr + (sealRecordAt m ptr).bytes.length ≤ ptr + n :=
        hinside (ptr, sealRecordAt m ptr) List.mem_cons_self
      rw [SealRecord.length_bytes] at hfirst
      rw [sub64_eq hlt (by omega)] at hrest
      obtain ⟨fuel, rfl⟩ := Nat.exists_eq_add_one_of_ne_zero (show fuel ≠ 0 by omega)
      rw [parseSealData, if_neg hzero, List.map_cons]
      refine congrArg (sealRecordAt m ptr :: ·) (ih (by omega) hrest (fun r hr => ?_) (by omega))
      have := hinside r (List.mem_cons_of_mem _ hr)
      omega

end Loop

/-- A payload of less than the header is accepted when it is empty, for then the parser looks at its
own buffer; the counter starts below zero. -/
theorem sealsInside_iff {p : Protocol} {m : Memory} {payload : List UInt8} (h : m.Holds 0 payload)
    (hlt : payload.length < 2 ^ 64)
    (haccepted : (parseChunkSealHeader p (some m) payload.length 0).isSome) :
    SealsInside m payload.length ↔ 16 ≤ payload.length ∧ WholeRecords (payload.drop 16) := by
  by_cases h16 : 16 ≤ payload.length
  · have hdrop : m.Holds 16 (payload.drop 16) := by
      have hboth := Memory.holds_append.mp ((List.take_append_drop 16 payload).symm ▸ h)
      rw [List.length_take_of_le h16, Nat.zero_add] at hboth
      exact hboth.2
    have hlen : (payload.drop 16).length = payload.length - 16 := List.length_drop
    unfold SealsInside
    rw [sub64_eq hlt h16, ← hlen]
    constructor
    · rintro ⟨turns, rs, hloop, hinside⟩
      refine ⟨h16, whole_of_sealLoop hdrop (by omega) hloop fun r hr => ?_⟩
      have := hinside r hr
      omega
    · rintro ⟨-, records, hrecords, hwhole⟩
      rw [hrecords] at hdrop hlen ⊢
      obtain ⟨turns, rs, hloop, hinside⟩ := exists_sealLoop_of_whole hdrop hwhole (by omega)
      refine ⟨turns, rs, hloop, fun r hr => ?_⟩
      have := hinside r hr
      omega
  · refine iff_of_false (fun hinside => ?_) fun hwhole => h16 hwhole.1
    -- The first record would have to lie in front of its address.
    have hempty : payload.length = 0 := by
      by_contra hne
      unfold parseChunkSealHeader at haccepted
      rw [p.input_some m (by omega)] at haccepted
      dsimp only at haccepted
      rw [Input.rest_eq hlt (Nat.zero_le _), if_pos (by dsimp only; omega)] at haccepted
      cases haccepted
    obtain ⟨turns, rs, hloop, hin⟩ := hinside
    rw [hempty] at hloop hin
    have hcounter : sub64 0 16 ≠ 0 := by decide
    cases turns with
    | zero =>
      rw [sealLoop, if_neg hcounter] at hloop
      cases hloop
    | succ turns =>
      rw [sealLoop, if_neg hcounter] at hloop
      obtain ⟨rest, -, rfl⟩ := Option.map_eq_some_iff.mp hloop
      have := hin _ List.mem_cons_self
      dsimp only at this
      omega

/-! ## A request that was sent -/

/-- Records that stand one behind the other, with their addresses. -/
def recordsAt : ℕ → List SealRecord → List (ℕ × SealRecord)
  | _, [] => []
  | ptr, r :: rs => (ptr, r) :: recordsAt (ptr + r.bytes.length) rs

section Sent

variable {m : Memory} {ptr turns : ℕ} {rs : List SealRecord}

theorem map_snd_recordsAt (ptr : ℕ) (rs : List SealRecord) :
    (recordsAt ptr rs).map Prod.snd = rs := by
  induction rs generalizing ptr with
  | nil => rfl
  | cons r rs ih => rw [recordsAt, List.map_cons, ih]

theorem holds_of_mem_recordsAt (h : m.Holds ptr (rs.flatMap SealRecord.bytes))
    {q : ℕ × SealRecord} (hq : q ∈ recordsAt ptr rs) : m.Holds q.1 q.2.bytes ∧ ptr ≤ q.1 ∧
      q.1 + q.2.bytes.length ≤ ptr + (rs.flatMap SealRecord.bytes).length := by
  induction rs generalizing ptr with
  | nil => cases hq
  | cons r rs ih =>
    rw [List.flatMap_cons, Memory.holds_append] at h
    rw [List.flatMap_cons, List.length_append]
    rcases List.mem_cons.mp hq with rfl | hq
    · exact ⟨h.1, le_rfl, by dsimp only; omega⟩
    · obtain ⟨hholds, hle, hend⟩ := ih h.2 hq
      exact ⟨hholds, by omega, by omega⟩

/-- A record that was written is read. -/
theorem sealRecordAt_of_holds {r : SealRecord} (h : m.Holds ptr r.bytes) (hsize : r.key.size < 256)
    (hoffset : r.offset < 256 ^ 4) : sealRecordAt m ptr = r := by
  have hkeySize : (m ptr).toNat = r.key.size := by
    rw [(Memory.holds_cons.mp h).1, UInt8.toNat_ofNat']
    exact Nat.mod_eq_of_lt hsize
  have htail := (Memory.holds_cons.mp h).2
  rw [Memory.holds_append, Memory.holds_cons, length_beBytes] at htail
  have hlarge : (m (ptr + 5) != 0) = r.key.isLarge := by
    have hflag : m (ptr + 5) = if r.key.isLarge then 1 else 0 := htail.2.1
    rw [hflag]
    cases r.key.isLarge <;> rfl
  unfold sealRecordAt
  rw [htail.1.readBe hoffset, hkeySize, hlarge]
  exact congrArg (SealRecord.mk · r.offset) (Key.ofMemory_eq htail.2.2)

theorem sealLoop_of_holds (h : m.Holds ptr (rs.flatMap SealRecord.bytes))
    (hsize : ∀ r ∈ rs, r.key.size < 256) (hoffset : ∀ r ∈ rs, r.offset < 256 ^ 4)
    (hlt : (rs.flatMap SealRecord.bytes).length < 2 ^ 64) (turns : ℕ) :
    sealLoop m turns ptr (rs.flatMap SealRecord.bytes).length =
      if rs.length ≤ turns then some (recordsAt ptr rs) else none := by
  induction rs generalizing ptr turns with
  | nil => cases turns <;> rfl
  | cons r rs ih =>
    rw [List.flatMap_cons, Memory.holds_append] at h
    rw [List.flatMap_cons, List.length_append] at hlt ⊢
    have hlen := r.length_bytes
    cases turns with
    | zero =>
      rw [sealLoop, if_neg (by omega), if_neg (by simp)]
    | succ turns =>
      have hrest := ih h.2 (fun q hq => hsize q (List.mem_cons_of_mem _ hq))
        (fun q hq => hoffset q (List.mem_cons_of_mem _ hq)) (by omega) turns
      rw [sealLoop, if_neg (by omega), sealRecordAt_of_holds h.1 (hsize r List.mem_cons_self)
        (hoffset r List.mem_cons_self)]
      dsimp only
      rw [← hlen, sub64_eq (by omega) (by omega), Nat.add_sub_cancel_left, hrest]
      by_cases hle : rs.length ≤ turns
      · rw [if_pos hle, if_pos (by simpa using hle)]
        rfl
      · rw [if_neg hle, if_neg (by simpa using hle)]
        rfl

theorem take_cons_eq_iff {α : Type} (a : α) (l : List α) :
    (a :: l).take l.length = l ↔ ∀ b ∈ l, b = a := by
  induction l generalizing a with
  | nil => simp
  | cons x l ih =>
    rw [List.length_cons, List.take_succ_cons, List.cons.injEq, List.forall_mem_cons, ih]
    constructor
    · rintro ⟨rfl, h⟩
      exact ⟨rfl, h⟩
    · rintro ⟨rfl, h⟩
      exact ⟨rfl, h⟩

/-- The other parser takes the flag for the first byte of the key, and leaves the flag as it was. -/
theorem parseChunkSealHeaderData_iff {p : Protocol} {size : ℕ} {r : SealRecord}
    (h : m.Holds ptr r.bytes) (hsize : r.key.size < 256) (hoffset : r.offset < 256 ^ 4)
    (hend : ptr + r.bytes.length ≤ size) (hlt : size < 2 ^ 64) (header : ChunkSealHeaderData) :
    (parseChunkSealHeaderData p header (some m) size ptr).map (·.record m) = some r ↔
      header.isLarge = r.key.isLarge ∧ ∀ b ∈ r.key.data, b = boolByte r.key.isLarge := by
  have hlen := r.length_bytes
  have hextent : r.key.size ≤ Key.extent r.key.size r.key.isLarge := Nat.le_add_right _ _
  have hkeySize : read1Byte m ptr = r.key.size := by
    rw [read1Byte_toNat, (Memory.holds_cons.mp h).1, UInt8.toNat_ofNat']
    exact Nat.mod_eq_of_lt hsize
  have htail := (Memory.holds_cons.mp h).2
  rw [Memory.holds_append, length_beBytes] at htail
  have hread : read4Bytes m (ptr + 1) = r.offset := htail.1.readBe hoffset
  have hflag : m.Holds (ptr + 5) (boolByte r.key.isLarge :: r.key.data) := htail.2
  have hrest : Input.rest ⟨m, size⟩ ptr = size - ptr :=
    Input.rest_eq hlt (show ptr ≤ size by omega)
  unfold parseChunkSealHeaderData
  rw [p.input_some m (by omega)]
  dsimp only
  rw [hrest, if_neg (by omega), hkeySize, hread, if_pos (by omega), Option.map_some,
    Option.some.injEq]
  have hkey : m.read (ptr + 5) (Key.extent r.key.size r.key.isLarge) =
      (boolByte r.key.isLarge :: r.key.data).take r.key.data.length := by
    have htake := Memory.holds_append.mp ((List.take_append_drop r.key.data.length
      (boolByte r.key.isLarge :: r.key.data)).symm ▸ hflag)
    have hheld := htake.1
    unfold Memory.Holds at hheld
    rw [List.length_take_of_le (Nat.le_succ _)] at hheld
    rw [← r.key.length_data]
    exact hheld
  constructor
  · intro heq
    have hlarge : header.isLarge = r.key.isLarge := congrArg (·.key.isLarge) heq
    have hdata : m.read (ptr + 5) (Key.extent r.key.size header.isLarge) = r.key.data :=
      congrArg (·.key.data) heq
    rw [hlarge, hkey] at hdata
    exact ⟨hlarge, (take_cons_eq_iff _ _).mp hdata⟩
  · rintro ⟨hlarge, hbytes⟩
    refine congrArg (SealRecord.mk · r.offset) (Key.ext hlarge ?_)
    change m.read (ptr + 5) (Key.extent r.key.size header.isLarge) = r.key.data
    rw [hlarge, hkey]
    exact (take_cons_eq_iff _ _).mpr hbytes

end Sent

/-- Record by record, the two parsers find the same in the payload at the start of the memory.
`header` is what the caller of the other parser has for it to fill in. -/
def ParsersAgree (p : Protocol) (header : ChunkSealHeaderData) (m : Memory) (size : ℕ) : Prop :=
  ∃ turns records, sealLoop m turns 16 (sub64 size 16) = some records ∧
    ∀ r ∈ records, (parseChunkSealHeaderData p header (some m) size r.1).map (·.record m) = some r.2

theorem length_flatMap_listed_le (cfg : GlobalConfig) (m : Memory) (fuel ptr : ℕ) :
    ((listed cfg m fuel ptr).flatMap SealRecord.bytes).length ≤ 264 * fuel := by
  induction fuel generalizing ptr with
  | zero => exact le_rfl
  | succ fuel ih =>
    rw [listed]
    cases hn : next cfg m ptr with
    | none => exact Nat.zero_le _
    | some n =>
      have hkey := (next_some hn).2.1
      have hbyte := (m ptr).toNat_lt
      have hrest := ih n.offset
      rw [List.flatMap_cons, List.length_append, SealRecord.length_bytes]
      dsimp only [Key.ofMemory]
      unfold Key.extent
      split_ifs <;> omega

theorem reqSealChunk_data (chunk : Chunk) (startPos : ℕ) : (reqSealChunk cfg chunk startPos).data =
    (listed cfg chunk.data cfg.chunkSize startPos).flatMap SealRecord.bytes := by
  simp only [reqSealChunk, reqSealChunkLoop_eq, List.nil_append]

/-- The payload of a request, behind the protocol header. -/
theorem drop_sealChunkMessage (cfg : GlobalConfig) (p : Protocol) (instanceId requestId : ℕ)
    (chunk : Chunk) (startPos : ℕ) : ∃ fields : List UInt8, fields.length = 16 ∧
      (sealChunkMessage cfg p instanceId requestId chunk startPos).drop 16 =
        fields ++ (listed cfg chunk.data cfg.chunkSize startPos).flatMap SealRecord.bytes := by
  refine ⟨beBytes 4 (reqSealChunk cfg chunk startPos).listId ++
    beBytes 4 (reqSealChunk cfg chunk startPos).stripeId ++
    beBytes 4 (reqSealChunk cfg chunk startPos).chunkId ++
    beBytes 4 (reqSealChunk cfg chunk startPos).count, by simp, ?_⟩
  rw [← reqSealChunk_data, sealChunkMessage, generateChunkSealHeader, List.append_assoc,
    List.drop_left' (Protocol.length_generateHeader _ _ _ _ _ _ _ _ _)]

/-- The parsers agree on the payload of a request when the header has the flag of every object in
advance, and no key has another byte than this flag. -/
theorem parsersAgree_iff (p q : Protocol) (header : ChunkSealHeaderData) (instanceId requestId : ℕ)
    (chunk : Chunk) (startPos : ℕ) {m : Memory} {payload : List UInt8} (h : m.Holds 0 payload)
    (hpayload : payload = (sealChunkMessage cfg q instanceId requestId chunk startPos).drop 16) :
    ParsersAgree p header m payload.length ↔
      ∀ r ∈ listed cfg chunk.data cfg.chunkSize startPos,
        header.isLarge = r.key.isLarge ∧ ∀ b ∈ r.key.data, b = boolByte r.key.isLarge := by
  obtain ⟨fields, hfields, hdrop⟩ :=
    drop_sealChunkMessage cfg q instanceId requestId chunk startPos
  have hle := length_flatMap_listed_le cfg chunk.data cfg.chunkSize startPos
  have hbounds : ∀ r ∈ listed cfg chunk.data cfg.chunkSize startPos,
      0 < r.key.size ∧ r.key.size < 256 ∧ r.offset < 256 ^ 4 := fun r => listed_bounds
  rw [hpayload, hdrop] at h ⊢
  generalize listed cfg chunk.data cfg.chunkSize startPos = rs at h hle hbounds ⊢
  have hc := cfg.chunkSize_le
  have hlen : (fields ++ rs.flatMap SealRecord.bytes).length =
      16 + (rs.flatMap SealRecord.bytes).length := by rw [List.length_append, hfields]
  have hrecords : m.Holds 16 (rs.flatMap SealRecord.bytes) := by
    have hboth := Memory.holds_append.mp h
    rw [hfields] at hboth
    exact hboth.2
  have hcounter : sub64 (fields ++ rs.flatMap SealRecord.bytes).length 16 =
      (rs.flatMap SealRecord.bytes).length := by
    rw [hlen, sub64_eq (by omega) (by omega), Nat.add_sub_cancel_left]
  have hloop := sealLoop_of_holds hrecords (fun r hr => (hbounds r hr).2.1)
    (fun r hr => (hbounds r hr).2.2) (by omega)
  have hparse : ∀ q ∈ recordsAt 16 rs, ((parseChunkSealHeaderData p header (some m)
      (fields ++ rs.flatMap SealRecord.bytes).length q.1).map (·.record m) = some q.2 ↔
        header.isLarge = q.2.key.isLarge ∧ ∀ b ∈ q.2.key.data, b = boolByte q.2.key.isLarge) := by
    intro q hq
    obtain ⟨hholds, -, hend⟩ := holds_of_mem_recordsAt hrecords hq
    have hmem : q.2 ∈ rs := by
      rw [← map_snd_recordsAt 16 rs]
      exact List.mem_map_of_mem hq
    exact parseChunkSealHeaderData_iff hholds (hbounds _ hmem).2.1 (hbounds _ hmem).2.2
      (by rwa [hlen]) (by omega) header
  unfold ParsersAgree
  rw [hcounter]
  constructor
  · rintro ⟨turns, records, hsome, hagree⟩ r hr
    rw [hloop] at hsome
    split_ifs at hsome
    rw [← Option.some.inj hsome] at hagree
    rw [← map_snd_recordsAt 16 rs] at hr
    obtain ⟨q, hq, rfl⟩ := List.mem_map.mp hr
    exact (hparse q hq).mp (hagree q hq)
  · intro hall
    refine ⟨rs.length, recordsAt 16 rs, by rw [hloop, if_pos le_rfl], fun q hq => ?_⟩
    refine (hparse q hq).mpr (hall q.2 ?_)
    rw [← map_snd_recordsAt 16 rs]
    exact List.mem_map_of_mem hq

/-- The loop stays inside an accepted payload that consists of whole records. The parsers agree on a
payload that was sent when no key has another byte than the flag. -/
theorem sealData_read_iff (cfg : GlobalConfig) (p q : Protocol) {m : Memory} {payload : List UInt8}
    (h : m.Holds 0 payload) (hlt : payload.length < 2 ^ 64) :
    ((parseChunkSealHeader p (some m) payload.length 0).isSome →
      (SealsInside m payload.length ↔ 16 ≤ payload.length ∧ WholeRecords (payload.drop 16))) ∧
    ∀ header instanceId requestId chunk startPos,
      payload = (sealChunkMessage cfg q instanceId requestId chunk startPos).drop 16 →
        (ParsersAgree p header m payload.length ↔
          ∀ r ∈ listed cfg chunk.data cfg.chunkSize startPos,
            header.isLarge = r.key.isLarge ∧ ∀ b ∈ r.key.data, b = boolByte r.key.isLarge) := by
  constructor
  · exact sealsInside_iff h hlt
  · intro header instanceId requestId chunk startPos hpayload
    exact parsersAgree_iff p q header instanceId requestId chunk startPos h hpayload

/-- A payload without records. -/
theorem sealData_read_noRecords : SealsInside (.place 0 (List.replicate 16 2)) 16 := by
  have hread := sealData_read_iff .smallest smallestServer smallestServer
    (Memory.holds_write 0 0 (List.replicate 16 2)) (by decide)
  exact (hread.1 (by decide)).mpr ⟨le_rfl, [], rfl, fun r hr => absurd hr List.not_mem_nil⟩

def lettersObject : Object .smallest := .plain [114, 115] [116] (by decide) (by decide)

/-- A chunk with one object. -/
def lettersChunk : Chunk := ⟨0, 0, 0, .place 0 (layout [lettersObject])⟩

def lettersPayload : List UInt8 :=
  (sealChunkMessage .smallest smallestServer 1 1 lettersChunk 0).drop 16

/-- A record of one byte is accepted and read behind the payload; and the parsers do not agree on
the request for the chunk. -/
theorem not_sealData_read :
    ((parseChunkSealHeader smallestServer (some (.place 0 (List.replicate 17 3))) 17 0).isSome ∧
      ¬SealsInside (.place 0 (List.replicate 17 3)) 17) ∧
    ∀ header, ¬ParsersAgree smallestServer header (.place 0 lettersPayload)
      lettersPayload.length := by
  refine ⟨⟨by decide, fun hinside => ?_⟩, fun header hagree => ?_⟩
  · obtain ⟨-, records, hflatten, hwhole⟩ := (sealsInside_iff (p := smallestServer)
      (Memory.holds_write 0 0 (List.replicate 17 3)) (by decide) (by decide)).mp hinside
    cases records with
    | nil => cases hflatten
    | cons r records =>
      have hlen := congrArg List.length hflatten
      have hsix := (hwhole r List.mem_cons_self).1
      rw [List.flatten_cons, List.length_append, List.length_drop, List.length_replicate] at hlen
      omega
  · have hall := (parsersAgree_iff smallestServer smallestServer header 1 1 lettersChunk 0
      (Memory.holds_write 0 0 lettersPayload) rfl).mp hagree
    have hkey : ∃ r ∈ listed .smallest lettersChunk.data 32 0,
        ∃ b ∈ r.key.data, b ≠ 0 ∧ b ≠ 1 := by decide +kernel
    obtain ⟨r, hr, b, hb, hzero, hone⟩ := hkey
    have hflag := (hall r hr).2 b hb
    cases hlarge : r.key.isLarge with
    | true => exact hone (by rw [hflag, hlarge]; rfl)
    | false => exact hzero (by rw [hflag, hlarge]; rfl)

end MemEC.Server
