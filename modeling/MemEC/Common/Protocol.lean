import MemEC.Common.ChunkPool

/-!
# Messages

Every message starts with a header of 16 bytes (`PROTO_HEADER_SIZE`) that says
how many bytes follow. A parser gets a pointer, the number of bytes that it
takes to be there, and an offset; it compares `size - offset` in `size_t`
arithmetic with what it needs and then reads through the pointer. The pointers
in a parsed header are kept as addresses here.
-/

namespace MemEC.Common

open MemEC.Lib

/-- `n` as a `size_t`. -/
def u64 (n : ℕ) : ℕ := n % 2 ^ 64

/-- `a - b` in `size_t` arithmetic. -/
def sub64 (a b : ℕ) : ℕ := u64 (a + (2 ^ 64 - b % 2 ^ 64))

theorem u64_eq {n : ℕ} (h : n < 2 ^ 64) : u64 n = n := Nat.mod_eq_of_lt h

theorem sub64_eq {a b : ℕ} (ha : a < 2 ^ 64) (hb : b ≤ a) : sub64 a b = a - b := by
  simp only [sub64, u64]
  omega

/-! ## Fields -/

/-- `read1Byte`. -/
def read1Byte (m : Memory) (ptr : ℕ) : ℕ := m.readBe ptr 1

/-- `read2Bytes`. -/
def read2Bytes (m : Memory) (ptr : ℕ) : ℕ := m.readBe ptr 2

/-- `read3Bytes`. -/
def read3Bytes (m : Memory) (ptr : ℕ) : ℕ := m.readBe ptr 3

/-- `read4Bytes`. -/
def read4Bytes (m : Memory) (ptr : ℕ) : ℕ := m.readBe ptr 4

/-- A `bool` as `write1Byte` writes it. -/
def boolByte (b : Bool) : UInt8 := if b then 1 else 0

/-- What the pointer `buf + off` refers to. -/
def advance (m : Memory) (off : ℕ) : Memory := fun i => m (off + i)

theorem holds_advance {m : Memory} {off i : ℕ} {bs : List UInt8} :
    (advance m off).Holds i bs ↔ m.Holds (off + i) bs := by
  simp only [Memory.holds_iff, advance, Nat.add_assoc]

section Fields

variable {m : Memory} {ptr n : ℕ}

theorem read1Byte_lt (m : Memory) (ptr : ℕ) : read1Byte m ptr < 2 ^ 8 := by
  have h := ofBe_lt (m.read ptr 1)
  rwa [Memory.length_read] at h

theorem read3Bytes_lt (m : Memory) (ptr : ℕ) : read3Bytes m ptr < 2 ^ 24 := by
  have h := ofBe_lt (m.read ptr 3)
  rwa [Memory.length_read] at h

theorem read1Byte_eq (h : m.Holds ptr (beBytes 1 n)) (hn : n < 2 ^ 8) : read1Byte m ptr = n :=
  h.readBe hn

theorem read2Bytes_eq (h : m.Holds ptr (beBytes 2 n)) (hn : n < 2 ^ 16) : read2Bytes m ptr = n :=
  h.readBe hn

theorem read3Bytes_eq (h : m.Holds ptr (beBytes 3 n)) (hn : n < 2 ^ 24) : read3Bytes m ptr = n :=
  h.readBe hn

theorem read4Bytes_eq (h : m.Holds ptr (beBytes 4 n)) (hn : n < 2 ^ 32) : read4Bytes m ptr = n :=
  h.readBe hn

theorem read1Byte_toNat (m : Memory) (ptr : ℕ) : read1Byte m ptr = (m ptr).toNat := by
  simp [read1Byte, Memory.readBe, Memory.read, ofBe]

theorem read1Byte_bool {b : Bool} (h : m ptr = boolByte b) : (read1Byte m ptr != 0) = b := by
  rw [read1Byte_toNat, h]
  cases b <;> rfl

end Fields

/-! ## Arrays -/

/-- A list id and a chunk id as they are written. -/
def idBytes (id : ℕ × ℕ) : List UInt8 := beBytes 4 id.1 ++ beBytes 4 id.2

@[simp] theorem length_idBytes (id : ℕ × ℕ) : (idBytes id).length = 8 := by simp [idBytes]

/-- An array of `count` numbers after its conversion in place. -/
def readWords (m : Memory) (ptr count : ℕ) : List ℕ :=
  (List.range count).map fun i => read4Bytes m (ptr + 4 * i)

/-- An array of `count` pairs of ids after its conversion in place. The index is a `uint32_t`. -/
def readIds (m : Memory) (ptr count : ℕ) : List (ℕ × ℕ) :=
  (List.range count).map fun i =>
    (read4Bytes m (ptr + 4 * u32 (i * 2)), read4Bytes m (ptr + 4 * u32 (i * 2 + 1)))

theorem readWords_eq {m : Memory} {ptr : ℕ} {l : List ℕ} (h : m.Holds ptr (l.flatMap (beBytes 4)))
    (hl : ∀ n ∈ l, n < 2 ^ 32) : readWords m ptr l.length = l := by
  rw [Memory.holds_flatMap fun _ => length_beBytes 4 _] at h
  refine List.ext_getElem (by simp [readWords]) fun i h1 h2 => ?_
  simp only [readWords, List.getElem_map, List.getElem_range]
  exact read4Bytes_eq (h i h2) (hl _ (List.getElem_mem h2))

theorem readIds_eq {m : Memory} {ptr : ℕ} {l : List (ℕ × ℕ)} (h : m.Holds ptr (l.flatMap idBytes))
    (hl : ∀ id ∈ l, id.1 < 2 ^ 32 ∧ id.2 < 2 ^ 32) (hcount : l.length < 2 ^ 31) :
    readIds m ptr l.length = l := by
  rw [Memory.holds_flatMap length_idBytes] at h
  refine List.ext_getElem (by simp [readIds]) fun i h1 h2 => ?_
  obtain ⟨hlist, hchunk⟩ := hl _ (List.getElem_mem h2)
  have hpair := h i h2
  rw [idBytes, Memory.holds_append, length_beBytes] at hpair
  have hfirst : ptr + 4 * u32 (i * 2) = ptr + 8 * i := by
    rw [u32_eq (by omega)]
    ring
  have hsecond : ptr + 4 * u32 (i * 2 + 1) = ptr + 8 * i + 4 := by
    rw [u32_eq (by omega)]
    ring
  simp only [readIds, List.getElem_map, List.getElem_range, hfirst, hsecond]
  rw [read4Bytes_eq hpair.1 hlist, read4Bytes_eq hpair.2 hchunk]

/-! ## Conversion in place

The parsers turn the numbers of an array into host byte order where they stand. What is read of an
array above is what stands there then; what matters here is where these writes go. -/

/-- `ntohl` of a number where it stands. -/
def swapWord (m : Memory) (ptr : ℕ) : Memory := m.write ptr (m.read ptr 4).reverse

/-- The loop over an array of `count` numbers. -/
def convertWords (m : Memory) (ptr count : ℕ) : Memory :=
  (List.range count).foldl (fun m i => swapWord m (ptr + 4 * i)) m

/-- The loop over two arrays of `count` pairs of ids. -/
def convertIds (m : Memory) (first second count : ℕ) : Memory :=
  (List.range count).foldl (fun m i =>
    let m := swapWord m (first + 4 * u32 (i * 2))
    let m := swapWord m (first + 4 * u32 (i * 2 + 1))
    let m := swapWord m (second + 4 * u32 (i * 2))
    swapWord m (second + 4 * u32 (i * 2 + 1))) m

section Conversion

variable {m : Memory} {ptr off count : ℕ} {bs : List UInt8}

theorem holds_swapWord (h : m.Holds off bs) (hd : ptr + 4 ≤ off) : (swapWord m ptr).Holds off bs :=
  h.write (Or.inr (by rwa [List.length_reverse, Memory.length_read]))

/-- A loop whose steps keep what stands at `off`. -/
theorem holds_foldl {f : Memory → ℕ → Memory} {l : List ℕ}
    (hf : ∀ m, ∀ i ∈ l, m.Holds off bs → (f m i).Holds off bs) (h : m.Holds off bs) :
    (l.foldl f m).Holds off bs := by
  induction l generalizing m with
  | nil => exact h
  | cons i l ih =>
    rw [List.foldl_cons]
    exact ih (fun m j hj => hf m j (List.mem_cons_of_mem _ hj)) (hf m i List.mem_cons_self h)

/-- What stands behind an array is not converted with it. -/
theorem holds_convertWords (h : m.Holds off bs) (hd : ptr + 4 * count ≤ off) :
    (convertWords m ptr count).Holds off bs := by
  refine holds_foldl (fun m i hi h => ?_) h
  have := List.mem_range.mp hi
  exact holds_swapWord h (by omega)

theorem holds_convertIds {first second : ℕ} (h : m.Holds off bs) (hcount : count < 2 ^ 31)
    (hfirst : first + 8 * count ≤ off) (hsecond : second + 8 * count ≤ off) :
    (convertIds m first second count).Holds off bs := by
  refine holds_foldl (fun m i hi h => ?_) h
  have hlt := List.mem_range.mp hi
  have heven : u32 (i * 2) = i * 2 := u32_eq (by omega)
  have hodd : u32 (i * 2 + 1) = i * 2 + 1 := u32_eq (by omega)
  rw [heven, hodd]
  exact holds_swapWord (holds_swapWord (holds_swapWord (holds_swapWord h (by omega)) (by omega))
    (by omega)) (by omega)

end Conversion

/-! ## The buffers -/

/-- What a parser looks at: the memory and the number of bytes that it takes to be there. -/
structure Input where
  bytes : Memory
  size : ℕ

/-- `size - offset`. -/
def Input.rest (input : Input) (offset : ℕ) : ℕ := sub64 input.size offset

theorem Input.rest_eq {input : Input} {offset : ℕ} (hs : input.size < 2 ^ 64)
    (h : offset ≤ input.size) : input.rest offset = input.size - offset := sub64_eq hs h

/-- `getSuggestedBufferSize`. The sum is a `uint32_t`; `20` is
`PROTO_HEADER_SIZE + PROTO_KEY_VALUE_SIZE`, `65536` is `PROTO_BUF_MIN_SIZE`. -/
def getSuggestedBufferSize (keySize chunkSize : ℕ) (supportLargeObject : Bool) : ℕ :=
  let ret := u32 (20 + keySize + if supportLargeObject then 16777216 else chunkSize)
  let ret := if ret % 4096 ≠ 0 then (ret / 4096 + 1) * 4096 else ret
  let ret := ret * 2
  if ret < 65536 then 65536 else ret

/-- With the key and chunk sizes that `GlobalConfig::validate` allows. -/
theorem getSuggestedBufferSize_lt {keySize chunkSize : ℕ} (hk : keySize ≤ 255)
    (hc : chunkSize ≤ 16777216) (supportLargeObject : Bool) :
    getSuggestedBufferSize keySize chunkSize supportLargeObject < 2 ^ 32 := by
  have h : u32 (20 + keySize + if supportLargeObject then 16777216 else chunkSize) ≤ 16777491 := by
    cases supportLargeObject
    · rw [if_neg Bool.false_ne_true, u32_eq (by omega)]
      omega
    · rw [if_pos rfl, u32_eq (by omega)]
      omega
  unfold getSuggestedBufferSize
  generalize u32 _ = ret at h ⊢
  dsimp only
  split_ifs <;> omega

/-- `Protocol`: the codes of the two sides, and the buffers, whose size is what
`getSuggestedBufferSize` says. -/
structure Protocol where
  sender : UInt8
  receiver : UInt8
  bufferSize : ℕ
  recv : Memory
  bufferSize_lt : bufferSize < 2 ^ 32

namespace Protocol

/-- The protocol of a party after `init`. -/
def init (sender receiver : UInt8) (recv : Memory) {keySize chunkSize : ℕ} (hk : keySize ≤ 255)
    (hc : chunkSize ≤ 16777216) (supportLargeObject : Bool) : Protocol :=
  ⟨sender, receiver, getSuggestedBufferSize keySize chunkSize supportLargeObject, recv,
    getSuggestedBufferSize_lt hk hc supportLargeObject⟩

/-- How a parser starts: a null pointer or a size of zero stands for the buffer of its own. -/
def input (p : Protocol) (buf : Option Memory) (size : ℕ) : Input :=
  match buf with
  | some m => if size = 0 then ⟨p.recv, p.bufferSize⟩ else ⟨m, size⟩
  | none => ⟨p.recv, p.bufferSize⟩

theorem input_some (p : Protocol) (m : Memory) {size : ℕ} (h : 0 < size) :
    p.input (some m) size = ⟨m, size⟩ := if_neg (Nat.pos_iff_ne_zero.mp h)

end Protocol

/-! ## The header -/

/-- `ProtocolHeader`. -/
structure ProtocolHeader where
  magic : UInt8
  sender : UInt8
  receiver : UInt8
  isLarge : Bool
  opcode : UInt8
  length : ℕ
  instanceId : ℕ
  requestId : ℕ
  timestamp : ℕ
deriving DecidableEq

namespace Protocol

/-- `generateHeader`. -/
def generateHeader (p : Protocol) (magic receiver opcode : UInt8)
    (length instanceId requestId requestTimestamp : ℕ) (isLarge : Bool) : List UInt8 :=
  [(magic &&& 0x07) ||| (p.sender &&& 0x18) ||| (receiver &&& 0x60) |||
    (if isLarge then 0x80 else 0), opcode &&& 0xFF] ++
  beBytes 4 length ++ beBytes 2 instanceId ++ beBytes 4 requestId ++ beBytes 4 requestTimestamp

/-- The opcodes that `parseHeader` knows. -/
def opcodes : List UInt8 :=
  [0x00, 0x70, 0x31, 0x32, 0x33, 0x34, 0x35, 0x36, 0x37, 0x38, 0x39, 0x40, 0x41, 0x01, 0x02, 0x03,
    0x04, 0x05, 0x06, 0x07, 0x08, 0x09, 0x10, 0x11, 0x12, 0x13, 0x14, 0x20, 0x51, 0x52, 0x53, 0x54,
    0x55, 0x56, 0x57, 0x58, 0x59, 0x60, 0x61, 0x62, 0x63, 0x64]

/-- `parseHeader`. -/
def parseHeader (p : Protocol) (buf : Option Memory) (size : ℕ) : Option ProtocolHeader :=
  let input := p.input buf size
  let m := input.bytes
  if input.size < 16 then none
  else
    let header : ProtocolHeader :=
      { magic := m 0 &&& 0x07
        sender := m 0 &&& 0x18
        receiver := m 0 &&& 0x60
        isLarge := m 0 &&& 0x80 != 0
        opcode := m 1 &&& 0xFF
        length := read4Bytes m 2
        instanceId := read2Bytes m 6
        requestId := read4Bytes m 8
        timestamp := read4Bytes m 12 }
    if header.magic ∉ [0x00, 0x01, 0x02, 0x03, 0x04, 0x05, 0x06, 0x07] then none
    else if header.sender ∉ [0x00, 0x08, 0x10, 0x18] then none
    else if header.receiver ≠ p.receiver then none
    else if header.opcode ∉ opcodes then none
    else some header

@[simp] theorem length_generateHeader (p : Protocol) (magic receiver opcode : UInt8)
    (length instanceId requestId requestTimestamp : ℕ) (isLarge : Bool) :
    (p.generateHeader magic receiver opcode length instanceId requestId requestTimestamp
      isLarge).length = 16 := by
  simp [generateHeader]

theorem or_and_distrib (a b c : UInt8) : (a ||| b) &&& c = (a &&& c) ||| (b &&& c) := by
  apply UInt8.toBitVec_inj.mp
  ext i hi
  simp [Bool.and_or_distrib_right]

/-- The fields of the first byte do not overlap. -/
theorem magic_byte (magic sender receiver : UInt8) (isLarge : Bool) :
    let b := (magic &&& 0x07) ||| (sender &&& 0x18) ||| (receiver &&& 0x60) |||
      (if isLarge then 0x80 else 0)
    b &&& 0x07 = magic &&& 0x07 ∧ b &&& 0x18 = sender &&& 0x18 ∧
      b &&& 0x60 = receiver &&& 0x60 ∧ (b &&& 0x80 != 0) = isLarge := by
  have hmagic : (0x07 : UInt8) &&& 0x18 = 0 ∧ (0x07 : UInt8) &&& 0x60 = 0 ∧
      (0x07 : UInt8) &&& 0x80 = 0 := by decide
  have hsender : (0x18 : UInt8) &&& 0x07 = 0 ∧ (0x18 : UInt8) &&& 0x60 = 0 ∧
      (0x18 : UInt8) &&& 0x80 = 0 := by decide
  have hreceiver : (0x60 : UInt8) &&& 0x07 = 0 ∧ (0x60 : UInt8) &&& 0x18 = 0 ∧
      (0x60 : UInt8) &&& 0x80 = 0 := by decide
  have hlarge : (0x80 : UInt8) &&& 0x07 = 0 ∧ (0x80 : UInt8) &&& 0x18 = 0 ∧
      (0x80 : UInt8) &&& 0x60 = 0 := by decide
  cases isLarge <;> simp [or_and_distrib, UInt8.and_assoc, hmagic, hsender, hreceiver, hlarge]

/-- A property of a byte that holds of all 256 of them. -/
theorem forall_byte (P : UInt8 → Prop) (h : ∀ i : Fin 256, P (UInt8.ofNat i)) (b : UInt8) :
    P b := by
  have hb := h ⟨b.toNat, b.toNat_lt⟩
  rwa [UInt8.ofNat_toNat] at hb

theorem magic_mem (b : UInt8) :
    b &&& 0x07 ∈ ([0x00, 0x01, 0x02, 0x03, 0x04, 0x05, 0x06, 0x07] : List UInt8) :=
  forall_byte (fun b => b &&& 0x07 ∈ _) (by decide +kernel) b

theorem sender_mem (b : UInt8) : b &&& 0x18 ∈ ([0x00, 0x08, 0x10, 0x18] : List UInt8) :=
  forall_byte (fun b => b &&& 0x18 ∈ _) (by decide +kernel) b

theorem and_ff (b : UInt8) : b &&& 0xFF = b :=
  forall_byte (fun b => b &&& 0xFF = b) (by decide +kernel) b

/-- What `generateHeader` writes, `parseHeader` reads. -/
theorem parseHeader_generateHeader {p q : Protocol} {m : Memory} {size : ℕ}
    {magic receiver opcode : UInt8} {length instanceId requestId requestTimestamp : ℕ}
    {isLarge : Bool}
    (h : m.Holds 0 (p.generateHeader magic receiver opcode length instanceId requestId
      requestTimestamp isLarge))
    (hsize : 16 ≤ size) (hreceiver : receiver &&& 0x60 = q.receiver) (hopcode : opcode ∈ opcodes)
    (hlength : length < 2 ^ 32) (hinstance : instanceId < 2 ^ 16) (hrequest : requestId < 2 ^ 32)
    (htimestamp : requestTimestamp < 2 ^ 32) :
    q.parseHeader (some m) size = some ⟨magic &&& 0x07, p.sender &&& 0x18, q.receiver, isLarge,
      opcode, length, instanceId, requestId, requestTimestamp⟩ := by
  simp only [generateHeader, Memory.holds_append, Memory.holds_cons, List.length_append,
    List.length_cons, List.length_nil, length_beBytes] at h
  obtain ⟨⟨⟨⟨⟨h0, h1, -⟩, h2⟩, h6⟩, h8⟩, h12⟩ := h
  obtain ⟨hm, hs, hr, hl⟩ := magic_byte magic p.sender receiver isLarge
  have hmem := magic_mem (m 0)
  have hmem' := sender_mem (m 0)
  rw [zero_add, and_ff] at h1
  rw [parseHeader, input_some _ _ (by omega)]
  dsimp only
  rw [if_neg (by omega), if_neg (not_not.mpr hmem), if_neg (not_not.mpr hmem'), h1, and_ff,
    read4Bytes_eq h2 hlength, read2Bytes_eq h6 hinstance, read4Bytes_eq h8 hrequest,
    read4Bytes_eq h12 htimestamp, h0, hm, hs, hr, hl, if_neg (not_not.mpr hreceiver),
    if_neg (not_not.mpr hopcode), hreceiver]

/-- The arguments of `generateHeader` that do not depend on the message. -/
structure Envelope where
  magic : UInt8
  receiver : UInt8
  opcode : UInt8
  instanceId : ℕ
  requestId : ℕ

/-- The message is for `q`, with an opcode that it knows, and the ids are `uint16_t` and
`uint32_t`. -/
structure Envelope.Fits (e : Envelope) (q : Protocol) : Prop where
  receiver : e.receiver &&& 0x60 = q.receiver
  opcode : e.opcode ∈ opcodes
  instanceId : e.instanceId < 2 ^ 16
  requestId : e.requestId < 2 ^ 32

/-- What `parseHeader` makes of it. -/
def Envelope.header (e : Envelope) (p q : Protocol) (length requestTimestamp : ℕ)
    (isLarge : Bool) : ProtocolHeader :=
  ⟨e.magic &&& 0x07, p.sender &&& 0x18, q.receiver, isLarge, e.opcode, length, e.instanceId,
    e.requestId, requestTimestamp⟩

/-- A message in the buffer of its receiver: the header says how long the rest is. -/
theorem receive_eq {p q : Protocol} {m : Memory} {e : Envelope} {payload : List UInt8}
    {requestTimestamp : ℕ} {isLarge : Bool}
    (h : m.Holds 0 (p.generateHeader e.magic e.receiver e.opcode payload.length e.instanceId
      e.requestId requestTimestamp isLarge ++ payload))
    (he : e.Fits q) (hlength : payload.length < 2 ^ 32) (htimestamp : requestTimestamp < 2 ^ 32) :
    q.parseHeader (some m) (16 + payload.length) =
      some (e.header p q payload.length requestTimestamp isLarge) ∧
    (advance m 16).Holds 0 payload := by
  rw [Memory.holds_append, length_generateHeader] at h
  exact ⟨parseHeader_generateHeader h.1 (Nat.le_add_right _ _) he.receiver he.opcode hlength
    he.instanceId he.requestId htimestamp, holds_advance.mpr h.2⟩

end Protocol

end MemEC.Common
