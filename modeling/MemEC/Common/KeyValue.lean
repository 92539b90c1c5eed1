import MemEC.Common.Key

/-!
# Stored objects

An object is stored as a four-byte header (the key size and the value size in
three bytes), the key, and the value. An object that does not fit into a chunk
is stored in splits: each split repeats the header with the size of the whole
value, and carries its offset in the value behind the key and in front of its
part of the value.

`KeyValue` below is the code's view, a pointer into a memory; `Object` is an
object that the code can have stored, with the facts that make it one. In the
definitions `4` is `KEY_VALUE_METADATA_SIZE`, which equals
`PROTO_KEY_VALUE_SIZE`, and `3` is `SPLIT_OFFSET_SIZE`.
-/

namespace MemEC.Common

open MemEC.Lib

/-- The sizes of a configuration that `GlobalConfig::validate` accepts. -/
structure GlobalConfig where
  keySize : ℕ
  chunkSize : ℕ
  le_keySize : 8 ≤ keySize
  keySize_le : keySize ≤ 255
  le_chunkSize : 32 ≤ chunkSize
  chunkSize_mod : chunkSize % 8 = 0
  keySize_add_le : keySize + 4 ≤ chunkSize
  chunkSize_le : chunkSize ≤ 16777216

/-- The smallest chunks that the configuration allows. -/
def GlobalConfig.smallest : GlobalConfig where
  keySize := 8
  chunkSize := 32
  le_keySize := le_rfl
  keySize_le := by norm_num
  le_chunkSize := le_rfl
  chunkSize_mod := rfl
  keySize_add_le := by norm_num
  chunkSize_le := by norm_num

variable (cfg : GlobalConfig)

namespace LargeObjectUtil

/-- `LargeObjectUtil::isLarge`: the object does not fit into one chunk. -/
def isLarge (keySize valueSize : ℕ) : Bool :=
  cfg.chunkSize < u32 (4 + keySize + valueSize)

theorem isLarge_eq_false_iff {keySize valueSize : ℕ} :
    isLarge cfg keySize valueSize = false ↔ u32 (4 + keySize + valueSize) ≤ cfg.chunkSize := by
  rw [isLarge, decide_eq_false_iff_not, Nat.not_lt]

theorem isLarge_of_fits {keySize valueSize : ℕ} (h : 4 + keySize + valueSize ≤ cfg.chunkSize) :
    isLarge cfg keySize valueSize = false := by
  have hc := cfg.chunkSize_le
  rw [isLarge_eq_false_iff, u32]
  omega

theorem lt_of_fits {keySize valueSize : ℕ} (h : 4 + keySize + valueSize ≤ cfg.chunkSize) :
    valueSize < 2 ^ 24 := by
  have hc := cfg.chunkSize_le
  omega

/-- The `splitSizePtr` result of `LargeObjectUtil::isLarge`. -/
def splitSize (keySize valueSize : ℕ) : ℕ :=
  if isLarge cfg keySize valueSize then
    sub32 (sub32 (sub32 cfg.chunkSize 4) keySize) 3
  else valueSize

end LargeObjectUtil

open LargeObjectUtil

namespace KeyValue

/-- The bytes of the value that are stored with the split at `splitOffset`. -/
def payloadSize (keySize valueSize splitOffset : ℕ) : ℕ :=
  if isLarge cfg keySize valueSize then
    if valueSize < u32 (splitOffset + splitSize cfg keySize valueSize) then
      sub32 valueSize splitOffset
    else splitSize cfg keySize valueSize
  else valueSize

/-- `KeyValue::getSize`, once the header has been read. -/
def storedSize (keySize valueSize splitOffset : ℕ) : ℕ :=
  if isLarge cfg keySize valueSize then
    u32 (4 + keySize + 3 +
      payloadSize cfg keySize valueSize splitOffset)
  else u32 (4 + keySize + valueSize)

/-- `KeyValue::setSize`: the header of an object. -/
def setSize (m : Memory) (data keySize valueSize : ℕ) : Memory :=
  m.write data (UInt8.ofNat keySize :: beBytes 3 valueSize)

/-- A copy of `n` bytes from a pointer that may be null. -/
def copyUnlessNull (m : Memory) (dst : ℕ) (src : Option (List UInt8)) (n : ℕ) : Memory :=
  match src with
  | none => m
  | some bs => m.write dst (bs.take n)

/-- `KeyValue::serialize`. -/
def serialize (m : Memory) (data : ℕ) (key : Option (List UInt8)) (keySize : ℕ)
    (value : Option (List UInt8)) (valueSize splitOffset : ℕ) : Memory :=
  let m := setSize m data keySize valueSize
  let data := data + 4
  let m := copyUnlessNull m data key keySize
  let data := data + keySize
  if isLarge cfg keySize valueSize then
    let m := m.write data (beBytes 3 splitOffset)
    copyUnlessNull m (data + 3) value (payloadSize cfg keySize valueSize splitOffset)
  else
    copyUnlessNull m data value valueSize

/-- What `KeyValue::deserialize` returns. The pointers are addresses. -/
structure Deserialized where
  key : ℕ
  keySize : ℕ
  value : ℕ
  valueSize : ℕ
  splitOffset : ℕ
deriving DecidableEq

/-- `KeyValue::deserialize`. -/
def deserialize (m : Memory) (data : ℕ) : Deserialized :=
  let keySize := (m data).toNat
  let valueSize := m.readBe (data + 1) 3
  let key := data + 4
  if isLarge cfg keySize valueSize then
    ⟨key, keySize, key + keySize + 3, valueSize,
      m.readBe (key + keySize) 3⟩
  else ⟨key, keySize, key + keySize, valueSize, 0⟩

theorem deserialize_keySize (m : Memory) (data : ℕ) :
    (deserialize cfg m data).keySize = (m data).toNat := by
  simp only [deserialize]
  split_ifs <;> rfl

/-- The size of the object that starts at `data`. -/
def sizeAt (m : Memory) (data : ℕ) : ℕ :=
  let kv := deserialize cfg m data
  storedSize cfg kv.keySize kv.valueSize kv.splitOffset

/-- `KeyValue::dup`: a copy of the object in memory of its own. -/
def dup (key : List UInt8) (keySize : ℕ) (value : List UInt8) (valueSize splitOffset : ℕ) :
    Memory :=
  serialize cfg 0 0 (some key) keySize (some value) valueSize splitOffset

/-- `KeyValue::getChunkUpdateOffset`. -/
def getChunkUpdateOffset (chunkOffset keySize valueUpdateOffset : ℕ) (isLarge : Bool) : ℕ :=
  u32 (chunkOffset + 4 + keySize + valueUpdateOffset +
    if isLarge then 3 else 0)

end KeyValue

open KeyValue

/-- An object, or a split of one, that fits into a chunk. `payload` is the part of the value
that is stored with it. -/
structure Object where
  key : List UInt8
  valueSize : ℕ
  splitOffset : ℕ
  payload : List UInt8
  length_key : key.length ≤ 255
  valueSize_lt : valueSize < 2 ^ 24
  splitOffset_lt : isLarge cfg key.length valueSize = true → splitOffset < valueSize
  splitOffset_eq : isLarge cfg key.length valueSize = false → splitOffset = 0
  room : isLarge cfg key.length valueSize = true → key.length + 7 < cfg.chunkSize
  length_payload : payload.length = payloadSize cfg key.length valueSize splitOffset
deriving DecidableEq

namespace Object

variable {cfg}

/-- The object is a split of a large object. -/
def isLarge (o : Object cfg) : Bool := LargeObjectUtil.isLarge cfg o.key.length o.valueSize

/-- An object that is stored whole. -/
def plain (key value : List UInt8) (hk : key.length ≤ 255)
    (hfit : 4 + key.length + value.length ≤ cfg.chunkSize) : Object cfg :=
  have hl : LargeObjectUtil.isLarge cfg key.length value.length ≠ true := by
    rw [ne_eq, Bool.not_eq_true]
    exact isLarge_of_fits cfg hfit
  { key
    valueSize := value.length
    splitOffset := 0
    payload := value
    length_key := hk
    valueSize_lt := lt_of_fits cfg hfit
    splitOffset_lt := fun h => absurd h hl
    splitOffset_eq := fun _ => rfl
    room := fun h => absurd h hl
    length_payload := (if_neg hl).symm }

/-- The key under which maps and SEAL requests know the object. -/
def mapKey (o : Object cfg) : Key :=
  if o.isLarge then .split o.key o.splitOffset else .plain o.key

/-- The header of the object. -/
def header (o : Object cfg) : List UInt8 := UInt8.ofNat o.key.length :: beBytes 3 o.valueSize

/-- The bytes between the header and the payload. -/
def keyBytes (o : Object cfg) : List UInt8 :=
  o.key ++ if o.isLarge then beBytes 3 o.splitOffset else []

/-- The object as it stands in a chunk. -/
def bytes (o : Object cfg) : List UInt8 := o.header ++ o.keyBytes ++ o.payload

/-- The number of bytes that the object takes up in a chunk. -/
def size (o : Object cfg) : ℕ := o.bytes.length

variable (o : Object cfg)

theorem isLarge_iff :
    o.isLarge = true ↔ cfg.chunkSize < 4 + o.key.length + o.valueSize := by
  have hk := o.length_key
  have hv := o.valueSize_lt
  rw [isLarge, LargeObjectUtil.isLarge, decide_eq_true_eq, u32_eq (by omega)]

theorem splitOffset_lt_two_pow : o.splitOffset < 256 ^ 3 := by
  have hv := o.valueSize_lt
  cases h : o.isLarge with
  | true =>
    have := o.splitOffset_lt h
    omega
  | false =>
    rw [o.splitOffset_eq h]
    norm_num

@[simp] theorem length_header : o.header.length = 4 := by simp [header]

theorem length_keyBytes :
    o.keyBytes.length = o.key.length + if o.isLarge then 3 else 0 := by
  unfold keyBytes
  cases h : o.isLarge <;> simp

/-- How much of the value a split of a large object carries. -/
theorem payload_of_large (h : o.isLarge = true) : o.payload.length =
    min (o.valueSize - o.splitOffset) (cfg.chunkSize - (o.key.length + 7)) := by
  have hr := o.room h
  have hs := o.splitOffset_lt h
  have hv := o.valueSize_lt
  have hc := cfg.chunkSize_le
  have hl : LargeObjectUtil.isLarge cfg o.key.length o.valueSize = true := h
  have hsplit : splitSize cfg o.key.length o.valueSize = cfg.chunkSize - (o.key.length + 7) := by
    rw [splitSize, if_pos hl, sub32_eq (a := cfg.chunkSize) (by omega) (by omega),
      sub32_eq (a := cfg.chunkSize - 4) (by omega) (by omega), sub32_eq (by omega) (by omega)]
    omega
  rw [o.length_payload, payloadSize, if_pos hl, hsplit, u32_eq (by omega),
    sub32_eq (by omega) (by omega)]
  split_ifs <;> omega

theorem payload_of_plain (h : o.isLarge = false) : o.payload.length = o.valueSize := by
  have hl : LargeObjectUtil.isLarge cfg o.key.length o.valueSize = false := h
  rw [o.length_payload, payloadSize, hl]
  rfl

theorem size_eq : o.size = 4 + o.key.length +
    (if o.isLarge then 3 else 0) + o.payload.length := by
  rw [size, bytes, List.length_append, List.length_append, length_header, length_keyBytes]
  omega

theorem le_size : 4 + o.key.length ≤ o.size := by
  rw [size_eq]
  omega

theorem size_le : o.size ≤ cfg.chunkSize := by
  rw [size_eq]
  cases h : o.isLarge with
  | true =>
    have hp := o.payload_of_large h
    have hr := o.room h
    simp only [if_true]
    omega
  | false =>
    have hp := o.payload_of_plain h
    have hn := mt o.isLarge_iff.mpr (by simp [h])
    simp only [Bool.false_eq_true, if_false]
    omega

/-- The size that the code computes for the object is the number of its bytes. -/
theorem storedSize_eq : storedSize cfg o.key.length o.valueSize o.splitOffset = o.size := by
  have hs := o.size_le
  have hc := cfg.chunkSize_le
  rw [size_eq] at hs ⊢
  rw [storedSize]
  cases h : o.isLarge with
  | true =>
    have hl : LargeObjectUtil.isLarge cfg o.key.length o.valueSize = true := h
    simp only [h, if_true] at hs
    rw [if_pos hl, ← o.length_payload, u32_eq (by omega), if_pos rfl]
  | false =>
    have hl : LargeObjectUtil.isLarge cfg o.key.length o.valueSize = false := h
    have hp := o.payload_of_plain h
    simp only [h, Bool.false_eq_true, if_false] at hs
    rw [hl, if_neg (by simp), hp, u32_eq (by omega)]
    simp

/-- `serialize` writes exactly the bytes of the object. -/
theorem serialize_eq (m : Memory) (data : ℕ) :
    serialize cfg m data (some o.key) o.key.length (some o.payload) o.valueSize o.splitOffset =
      m.write data o.bytes := by
  have hp := o.length_payload
  have hl : LargeObjectUtil.isLarge cfg o.key.length o.valueSize = o.isLarge := rfl
  rw [bytes, Memory.write_append, Memory.write_append, List.length_append, length_header,
    length_keyBytes, keyBytes, Memory.write_append]
  simp only [serialize, setSize, copyUnlessNull, List.take_length, hl]
  cases h : o.isLarge with
  | true =>
    simp only [if_true, ← hp, List.take_length]
    rw [← Nat.add_assoc data, ← Nat.add_assoc (data + 4)]
    rfl
  | false =>
    have hv : o.payload.take o.valueSize = o.payload := by
      rw [← o.payload_of_plain h, List.take_length]
    simp only [Bool.false_eq_true, if_false, hv, Memory.write_nil, Nat.add_zero]
    rw [← Nat.add_assoc data]
    rfl

theorem dup_eq : dup cfg o.key o.key.length o.payload o.valueSize o.splitOffset =
    Memory.place 0 o.bytes := o.serialize_eq 0 0

variable {o} {m : Memory} {data : ℕ}

theorem holds_header (h : m.Holds data (o.header ++ o.keyBytes)) :
    (m data).toNat = o.key.length ∧ m.readBe (data + 1) 3 = o.valueSize := by
  have hk := o.length_key
  rw [Memory.holds_append, header, Memory.holds_cons] at h
  refine ⟨?_, h.1.2.readBe o.valueSize_lt⟩
  rw [h.1.1, UInt8.toNat_ofNat']
  omega

/-- The header and the key are all that `deserialize` reads. -/
theorem deserialize_of_header (h : m.Holds data (o.header ++ o.keyBytes)) :
    deserialize cfg m data =
      ⟨data + 4, o.key.length, data + 4 + o.keyBytes.length, o.valueSize, o.splitOffset⟩ := by
  obtain ⟨hk, hv⟩ := holds_header h
  have hl : LargeObjectUtil.isLarge cfg o.key.length o.valueSize = o.isLarge := rfl
  simp only [deserialize, hk, hv, hl, length_keyBytes]
  cases hlarge : o.isLarge with
  | true =>
    have hoff : m.readBe (data + 4 + o.key.length) 3 = o.splitOffset := by
      rw [keyBytes, hlarge, if_pos rfl, Memory.holds_append, Memory.holds_append,
        length_header] at h
      exact h.2.2.readBe o.splitOffset_lt_two_pow
    simp only [if_true, hoff, Nat.add_assoc (data + 4)]
  | false =>
    rw [o.splitOffset_eq hlarge]
    simp

theorem sizeAt_of_header (h : m.Holds data (o.header ++ o.keyBytes)) :
    sizeAt cfg m data = o.size := by
  rw [sizeAt, deserialize_of_header h]
  exact o.storedSize_eq

/-- Reading an object back. -/
theorem deserialize_eq (h : m.Holds data o.bytes) : deserialize cfg m data =
    ⟨data + 4, o.key.length, data + 4 + o.keyBytes.length, o.valueSize, o.splitOffset⟩ := by
  rw [bytes, Memory.holds_append] at h
  exact deserialize_of_header h.1

/-- `serialize` of the pointers into a stored object copies the object. -/
theorem serialize_read (h : m.Holds data o.bytes) (dst : Memory) (off : ℕ) :
    serialize cfg dst off (some (m.read (data + 4) o.key.length)) o.key.length
      (some (m.read (data + 4 + o.keyBytes.length) o.valueSize)) o.valueSize o.splitOffset =
      dst.write off o.bytes := by
  rw [bytes, List.append_assoc, Memory.holds_append, Memory.holds_append, length_header] at h
  have hkey : m.read (data + 4) o.key.length = o.key := by
    have hk := h.2.1
    rw [keyBytes, Memory.holds_append] at hk
    exact hk.1
  have htake : ∀ n, n ≤ o.valueSize → n = o.payload.length →
      (m.read (data + 4 + o.keyBytes.length) o.valueSize).take n = o.payload.take n := by
    rintro n hle rfl
    have hv : m.read (data + 4 + o.keyBytes.length) o.payload.length = o.payload := h.2.2
    rw [Memory.take_read _ _ hle, hv, List.take_length]
  rw [← o.serialize_eq dst off, hkey]
  have hl : LargeObjectUtil.isLarge cfg o.key.length o.valueSize = o.isLarge := rfl
  simp only [serialize, copyUnlessNull, hl]
  cases hlarge : o.isLarge with
  | true =>
    have hp := o.payload_of_large hlarge
    rw [if_pos rfl, if_pos rfl, ← o.length_payload, htake _ (by omega) rfl]
  | false =>
    have hp := o.payload_of_plain hlarge
    rw [if_neg Bool.false_ne_true, if_neg Bool.false_ne_true, htake _ le_rfl hp.symm]

theorem sizeAt_eq (h : m.Holds data o.bytes) : sizeAt cfg m data = o.size := by
  rw [bytes, Memory.holds_append] at h
  exact sizeAt_of_header h.1

/-- The key that is read from a stored object. -/
theorem ofMemory_eq (h : m.Holds data o.bytes) :
    Key.ofMemory m (data + 4) o.key.length o.isLarge = o.mapKey := by
  rw [bytes, List.append_assoc, Memory.holds_append, Memory.holds_append, length_header] at h
  have hk : m.read (data + 4) (Key.extent o.key.length o.isLarge) = o.keyBytes := by
    have := h.2.1
    rwa [Memory.Holds, length_keyBytes] at this
  cases hlarge : o.isLarge with
  | true =>
    refine Key.ext ?_ ?_
    · simp [Key.ofMemory, mapKey, hlarge, Key.split]
    · rw [hlarge] at hk
      simp [Key.ofMemory, mapKey, hlarge, Key.split, hk, keyBytes]
  | false =>
    refine Key.ext ?_ ?_
    · simp [Key.ofMemory, mapKey, hlarge, Key.plain]
    · rw [hlarge] at hk
      simp [Key.ofMemory, mapKey, hlarge, Key.plain, hk, keyBytes]

theorem mapKey_of_plain {o : Object cfg} (h : o.isLarge = false) : o.mapKey = .plain o.key := by
  rw [mapKey, h, if_neg Bool.false_ne_true]

theorem mapKey_size (o : Object cfg) : o.mapKey.size = o.key.length := by
  unfold mapKey
  cases o.isLarge <;> rfl

theorem mapKey_isLarge (o : Object cfg) : o.mapKey.isLarge = o.isLarge := by
  unfold mapKey
  cases o.isLarge <;> rfl

theorem mapKey_data (o : Object cfg) : o.mapKey.data = o.keyBytes := by
  unfold mapKey keyBytes
  cases o.isLarge <;> simp [Key.split, Key.plain]

end Object

end MemEC.Common
