import MemEC.Common.MultiFrame
import MemEC.Lib.Format

/-!
# Writing and reading messages

What the functions `generate...Header` write behind the header of a message, and what
the functions `parse...Header` read of it: the fields, and the keys and values at the
pointers. For each kind of message the one undoes the other.
-/

namespace MemEC.Common

open MemEC.Lib

/-! ## Sizes -/

section Sizes

variable {input : Input} {offset n : ℕ}

theorem Input.le_rest (hs : input.size < 2 ^ 64) (h : offset + n ≤ input.size) :
    n ≤ input.rest offset := by
  rw [Input.rest_eq hs (by omega)]
  omega

theorem Input.not_rest_lt (hs : input.size < 2 ^ 64) (h : offset + n ≤ input.size) :
    ¬ input.rest offset < n := Nat.not_lt.mpr (Input.le_rest hs h)

end Sizes

/-- What is read at a pointer that may be null when there is nothing to read. -/
theorem read_of_holds {m : Memory} {ptr : ℕ} {bs : List UInt8} (h : m.Holds ptr bs) {n : ℕ}
    (hn : bs.length = n) : m.read (if n ≠ 0 then ptr else 0) n = bs := by
  subst hn
  cases bs with
  | nil => rfl
  | cons b bs =>
    rw [if_pos (by simp)]
    exact h

/-! ## Keys -/

/-- `generateKeyHeader`. -/
def generateKeyPayload (key : Key) : List UInt8 := beBytes 1 key.size ++ key.data

/-- A key; the header of the message says whether it is that of a split. -/
def keyFormat (isLarge : Bool) : Format Key where
  generate := generateKeyPayload
  parse m size offset := (parseKeyHeader ⟨m, size⟩ offset).map fun header =>
    Key.ofMemory m header.key header.keySize isLarge

/-- The size of a key is a `uint8_t`. -/
structure KeyFits (isLarge : Bool) (key : Key) : Prop where
  isLarge : key.isLarge = isLarge
  size : key.size < 2 ^ 8

theorem keyFormat_roundTrip (isLarge : Bool) :
    (keyFormat isLarge).RoundTrip (2 ^ 64) (KeyFits isLarge) := by
  rintro key m size offset ⟨rfl, hkey⟩ h hend hsize
  simp only [keyFormat, generateKeyPayload, Memory.holds_append, List.length_append, length_beBytes,
    key.length_data, Key.extent] at h hend ⊢
  obtain ⟨hkeySize, hdata⟩ := h
  rw [parseKeyHeader, if_neg (Input.not_rest_lt hsize (by dsimp only; omega))]
  simp only [read1Byte_eq hkeySize hkey]
  rw [if_pos (Input.le_rest hsize (by dsimp only; omega)), Option.map_some,
    Key.ofMemory_eq hdata]

/-- The key of an object in a chunk. -/
structure ChunkKey where
  chunk : Metadata
  key : List UInt8

/-- `generateChunkKeyHeader`. -/
def generateChunkKeyPayload (k : ChunkKey) : List UInt8 :=
  k.chunk.bytes ++ beBytes 1 k.key.length ++ k.key

def chunkKeyFormat : Format ChunkKey where
  generate := generateChunkKeyPayload
  parse m size offset := (parseChunkKeyHeader ⟨m, size⟩ offset).map fun header =>
    ⟨⟨header.listId, header.stripeId, header.chunkId⟩, m.read header.key header.keySize⟩

structure ChunkKey.Fits (k : ChunkKey) : Prop where
  chunk : k.chunk.Fits
  key : k.key.length < 2 ^ 8

theorem chunkKeyFormat_roundTrip : chunkKeyFormat.RoundTrip (2 ^ 64) ChunkKey.Fits := by
  rintro ⟨chunk, key⟩ m size offset ⟨hchunk, hkey⟩ h hend hsize
  simp only [chunkKeyFormat, generateChunkKeyPayload, Metadata.bytes, Memory.holds_append,
    List.length_append, length_beBytes] at h hend ⊢
  obtain ⟨⟨⟨⟨h0, h4⟩, h8⟩, h12⟩, hdata⟩ := h
  rw [parseChunkKeyHeader, if_neg (Input.not_rest_lt hsize (by dsimp only; omega))]
  simp only [read1Byte_eq h12 hkey, read4Bytes_eq h0 hchunk.listId, read4Bytes_eq h4 hchunk.stripeId,
    read4Bytes_eq h8 hchunk.chunkId]
  rw [if_pos (Input.le_rest hsize (by dsimp only; omega)), Option.map_some]
  exact congrArg some (congrArg (ChunkKey.mk chunk) hdata)

/-! ## Backups of keys -/

/-- The fields that only data servers get. -/
structure BackupFields where
  timestamp : ℕ
  chunk : Metadata
  sealed : List Metadata

/-- The key of an object with what its server is told about it. -/
structure KeyBackup where
  forData : Option BackupFields
  key : Key

/-- The functions `generateKeyBackupHeader`: for a parity server, and for a data server without and
with sealed chunks. -/
def generateKeyBackupPayload (b : KeyBackup) : List UInt8 :=
  boolByte b.forData.isNone :: (beBytes 1 b.key.size ++ [boolByte b.key.isLarge]) ++
    (match b.forData with
      | none => []
      | some f => beBytes 4 f.timestamp ++ f.chunk.bytes ++ beBytes 1 f.sealed.length ++
          f.sealed.flatMap Metadata.bytes) ++
    b.key.data

def keyBackupFormat : Format KeyBackup where
  generate := generateKeyBackupPayload
  parse m size offset := (parseKeyBackupHeader ⟨m, size⟩ offset).map fun header =>
    { forData := header.forData.map fun f => ⟨f.timestamp, ⟨f.listId, f.stripeId, f.chunkId⟩, f.sealed⟩
      key := Key.ofMemory m header.key header.keySize header.isLarge }

structure BackupFields.Fits (f : BackupFields) : Prop where
  timestamp : f.timestamp < 2 ^ 32
  chunk : f.chunk.Fits
  count : f.sealed.length ≤ 2
  sealed : ∀ md ∈ f.sealed, md.Fits

/-- The header of a parsed message has room for two chunks. -/
structure KeyBackup.Fits (b : KeyBackup) : Prop where
  forData : ∀ f, b.forData = some f → f.Fits
  key : b.key.size < 2 ^ 8

theorem readMetadatas_eq {m : Memory} {ptr : ℕ} {l : List Metadata}
    (h : m.Holds ptr (l.flatMap Metadata.bytes)) (hl : ∀ md ∈ l, md.Fits) :
    ((List.range l.length).map fun i => readMetadata m (ptr + 12 * i)) = l := by
  rw [Memory.holds_flatMap Metadata.length_bytes] at h
  refine List.ext_getElem (by simp) fun i h1 h2 => ?_
  simp only [List.getElem_map, List.getElem_range]
  exact readMetadata_eq (h i h2) (hl _ (List.getElem_mem h2))

theorem keyBackupFormat_roundTrip : keyBackupFormat.RoundTrip (2 ^ 64) KeyBackup.Fits := by
  rintro ⟨forData, key⟩ m size offset ⟨hforData, hkey⟩ h hend hsize
  cases forData with
  | none =>
    simp only [keyBackupFormat, generateKeyBackupPayload, Option.isNone_none, List.append_assoc,
      List.cons_append, List.nil_append, Memory.holds_cons, Memory.holds_append, List.length_cons,
      List.length_append, length_beBytes, key.length_data, Key.extent, Nat.add_assoc,
      Nat.reduceAdd] at h hend ⊢
    obtain ⟨h0, h1, h2, hdata⟩ := h
    rw [parseKeyBackupHeader, if_neg (Input.not_rest_lt hsize (by dsimp only; omega))]
    simp only [read1Byte_bool h0, read1Byte_eq h1 hkey, read1Byte_bool h2, if_true]
    rw [if_neg (Input.not_rest_lt hsize (by dsimp only; omega)), Option.map_some,
      Key.ofMemory_eq hdata]
    rfl
  | some f =>
    obtain ⟨htimestamp, hchunk, hcount, hsealed⟩ := hforData f rfl
    simp only [keyBackupFormat, generateKeyBackupPayload, Option.isNone_some, Metadata.bytes,
      List.append_assoc, List.cons_append, List.nil_append, Memory.holds_cons, Memory.holds_append,
      List.length_cons, List.length_append, length_beBytes, key.length_data, Key.extent,
      length_flatMap_metadata, Nat.add_assoc, Nat.reduceAdd] at h hend ⊢
    obtain ⟨h0, h1, h2, h3, h7, h11, h15, h19, h20, hdata⟩ := h
    have hcount' : f.sealed.length < 2 ^ 8 := by omega
    have hmetadatas := readMetadatas_eq h20 hsealed
    rw [parseKeyBackupHeader, if_neg (Input.not_rest_lt hsize (by dsimp only; omega))]
    simp only [read1Byte_bool h0, read1Byte_eq h1 hkey, read1Byte_bool h2, read1Byte_eq h19 hcount',
      read4Bytes_eq h3 htimestamp, read4Bytes_eq h7 hchunk.listId, read4Bytes_eq h11 hchunk.stripeId,
      read4Bytes_eq h15 hchunk.chunkId, Bool.false_eq_true, if_false, hmetadatas]
    rw [if_neg (Input.not_rest_lt hsize (by dsimp only; omega)),
      if_neg (Input.not_rest_lt hsize (by dsimp only; omega)), Option.map_some, Option.map_some,
      Nat.add_assoc offset 20, Key.ofMemory_eq hdata]

/-! ## Updates -/

/-- An update of an object in a chunk. A response leaves the value out. -/
structure ChunkKeyValueUpdate where
  chunk : Metadata
  key : Key
  valueUpdateOffset : ℕ
  chunkUpdateOffset : ℕ
  valueUpdateSize : ℕ
  valueUpdate : List UInt8

/-- `generateChunkKeyValueUpdateHeader`. -/
def generateChunkKeyValueUpdatePayload (u : ChunkKeyValueUpdate) : List UInt8 :=
  u.chunk.bytes ++ beBytes 1 u.key.size ++ beBytes 3 u.valueUpdateSize ++
    beBytes 3 u.valueUpdateOffset ++ beBytes 3 u.chunkUpdateOffset ++ [boolByte u.key.isLarge] ++
    u.key.data ++ u.valueUpdate

def chunkKeyValueUpdateFormat (withValueUpdate : Bool) : Format ChunkKeyValueUpdate where
  generate := generateChunkKeyValueUpdatePayload
  parse m size offset :=
    (parseChunkKeyValueUpdateHeader ⟨m, size⟩ withValueUpdate offset).map fun header =>
      { chunk := ⟨header.listId, header.stripeId, header.chunkId⟩
        key := Key.ofMemory m header.key header.keySize header.isLarge
        valueUpdateOffset := header.valueUpdateOffset
        chunkUpdateOffset := header.chunkUpdateOffset
        valueUpdateSize := header.valueUpdateSize
        valueUpdate := if withValueUpdate then m.read header.valueUpdate header.valueUpdateSize
          else [] }

structure ChunkKeyValueUpdate.Fits (withValueUpdate : Bool) (u : ChunkKeyValueUpdate) : Prop where
  chunk : u.chunk.Fits
  key : u.key.size < 2 ^ 8
  valueUpdateOffset : u.valueUpdateOffset < 2 ^ 24
  chunkUpdateOffset : u.chunkUpdateOffset < 2 ^ 24
  valueUpdateSize : u.valueUpdateSize < 2 ^ 24
  valueUpdate : u.valueUpdate.length = if withValueUpdate then u.valueUpdateSize else 0

theorem chunkKeyValueUpdateFormat_roundTrip (withValueUpdate : Bool) :
    (chunkKeyValueUpdateFormat withValueUpdate).RoundTrip (2 ^ 64)
      (ChunkKeyValueUpdate.Fits withValueUpdate) := by
  rintro ⟨chunk, key, valueUpdateOffset, chunkUpdateOffset, valueUpdateSize, valueUpdate⟩ m size
    offset ⟨hchunk, hkey, hvalueOffset, hchunkOffset, hvalueSize, hvalue⟩ h hend hsize
  dsimp only at hkey hvalueOffset hchunkOffset hvalueSize hvalue
  simp only [chunkKeyValueUpdateFormat, generateChunkKeyValueUpdatePayload, Metadata.bytes,
    List.append_assoc, List.cons_append, List.nil_append, Memory.holds_cons, Memory.holds_append,
    List.length_cons, List.length_append, length_beBytes, key.length_data, Key.extent,
    Nat.add_assoc, Nat.reduceAdd, hvalue] at h hend ⊢
  obtain ⟨h0, h4, h8, h12, h13, h16, h19, h22, h23, hbytes⟩ := h
  rw [parseChunkKeyValueUpdateHeader, if_neg (Input.not_rest_lt hsize (by dsimp only; omega))]
  simp only [read4Bytes_eq h0 hchunk.listId, read4Bytes_eq h4 hchunk.stripeId,
    read4Bytes_eq h8 hchunk.chunkId, read1Byte_eq h12 hkey, read3Bytes_eq h13 hvalueSize,
    read3Bytes_eq h16 hvalueOffset, read3Bytes_eq h19 hchunkOffset, read1Byte_bool h22, Key.extent,
    Nat.add_assoc]
  have htotal : 23 + (key.size + ((if key.isLarge = true then 3 else 0) +
      if withValueUpdate = true then valueUpdateSize else 0)) < 2 ^ 32 := by
    split_ifs <;> omega
  rw [u32_eq htotal, if_pos (Input.le_rest hsize (by dsimp only; omega)), Option.map_some,
    Key.ofMemory_eq h23]
  cases withValueUpdate with
  | false =>
    rw [List.length_eq_zero_iff.mp hvalue]
    rfl
  | true =>
    simp only [Bool.true_and, decide_eq_true_eq, if_true, read_of_holds hbytes (hvalue.trans (if_pos rfl))]

/-- An update of an object of a client. -/
structure KeyValueUpdate where
  key : List UInt8
  valueUpdateOffset : ℕ
  valueUpdateSize : ℕ
  valueUpdate : List UInt8

/-- `generateKeyValueUpdateHeader`. -/
def generateKeyValueUpdatePayload (u : KeyValueUpdate) : List UInt8 :=
  beBytes 1 u.key.length ++ beBytes 3 u.valueUpdateSize ++ beBytes 3 u.valueUpdateOffset ++ u.key ++
    u.valueUpdate

def keyValueUpdateFormat (withValueUpdate : Bool) : Format KeyValueUpdate where
  generate := generateKeyValueUpdatePayload
  parse m size offset :=
    (parseKeyValueUpdateHeader ⟨m, size⟩ withValueUpdate offset).map fun header =>
      { key := m.read header.key header.keySize
        valueUpdateOffset := header.valueUpdateOffset
        valueUpdateSize := header.valueUpdateSize
        valueUpdate := if withValueUpdate then m.read header.valueUpdate header.valueUpdateSize
          else [] }

structure KeyValueUpdate.Fits (withValueUpdate : Bool) (u : KeyValueUpdate) : Prop where
  key : u.key.length < 2 ^ 8
  valueUpdateOffset : u.valueUpdateOffset < 2 ^ 24
  valueUpdateSize : u.valueUpdateSize < 2 ^ 24
  valueUpdate : u.valueUpdate.length = if withValueUpdate then u.valueUpdateSize else 0

theorem keyValueUpdateFormat_roundTrip (withValueUpdate : Bool) :
    (keyValueUpdateFormat withValueUpdate).RoundTrip (2 ^ 64)
      (KeyValueUpdate.Fits withValueUpdate) := by
  rintro ⟨key, valueUpdateOffset, valueUpdateSize, valueUpdate⟩ m size offset
    ⟨hkey, hvalueOffset, hvalueSize, hvalue⟩ h hend hsize
  dsimp only at hkey hvalueOffset hvalueSize hvalue
  simp only [keyValueUpdateFormat, generateKeyValueUpdatePayload, List.append_assoc,
    Memory.holds_append, List.length_append, length_beBytes, Nat.add_assoc, Nat.reduceAdd,
    hvalue] at h hend ⊢
  obtain ⟨h0, h1, h4, h7, hbytes⟩ := h
  rw [parseKeyValueUpdateHeader, if_neg (Input.not_rest_lt hsize (by dsimp only; omega))]
  simp only [read1Byte_eq h0 hkey, read3Bytes_eq h1 hvalueSize, read3Bytes_eq h4 hvalueOffset,
    Nat.add_assoc]
  have htotal : 7 + (key.length + if withValueUpdate = true then valueUpdateSize else 0) < 2 ^ 32 := by
    split_ifs <;> omega
  rw [u32_eq htotal, if_pos (Input.le_rest hsize (by dsimp only; omega)), Option.map_some]
  have hkeyBytes : m.read (offset + 7) key.length = key := h7
  cases withValueUpdate with
  | false =>
    rw [List.length_eq_zero_iff.mp hvalue]
    simp only [hkeyBytes, Bool.false_eq_true, if_false]
  | true =>
    simp only [hkeyBytes, Bool.true_and, decide_eq_true_eq, if_true, read_of_holds hbytes (hvalue.trans (if_pos rfl))]

/-- An update of a range of a chunk. A response leaves the delta out. -/
structure ChunkUpdate where
  chunk : Metadata
  offset : ℕ
  length : ℕ
  updatingChunkId : ℕ
  delta : List UInt8

/-- `generateChunkUpdateHeader`. -/
def generateChunkUpdatePayload (u : ChunkUpdate) : List UInt8 :=
  u.chunk.bytes ++ beBytes 4 u.offset ++ beBytes 4 u.length ++ beBytes 4 u.updatingChunkId ++ u.delta

def chunkUpdateFormat (withDelta : Bool) : Format ChunkUpdate where
  generate := generateChunkUpdatePayload
  parse m size offset := (parseChunkUpdateHeader ⟨m, size⟩ withDelta offset).map fun header =>
    { chunk := ⟨header.listId, header.stripeId, header.chunkId⟩
      offset := header.offset
      length := header.length
      updatingChunkId := header.updatingChunkId
      delta := if withDelta then m.read header.delta header.length else [] }

/-- The length is added to that of the header in 32 bits. -/
structure ChunkUpdate.Fits (withDelta : Bool) (u : ChunkUpdate) : Prop where
  chunk : u.chunk.Fits
  offset : u.offset < 2 ^ 32
  length : 24 + u.length < 2 ^ 32
  updatingChunkId : u.updatingChunkId < 2 ^ 32
  delta : u.delta.length = if withDelta then u.length else 0

theorem chunkUpdateFormat_roundTrip (withDelta : Bool) :
    (chunkUpdateFormat withDelta).RoundTrip (2 ^ 64) (ChunkUpdate.Fits withDelta) := by
  rintro ⟨chunk, chunkOffset, length, updatingChunkId, delta⟩ m size offset
    ⟨hchunk, hoffset, hlength, hupdating, hdelta⟩ h hend hsize
  dsimp only at hoffset hlength hupdating hdelta
  simp only [chunkUpdateFormat, generateChunkUpdatePayload, Metadata.bytes, List.append_assoc,
    Memory.holds_append, List.length_append, length_beBytes, Nat.add_assoc, Nat.reduceAdd,
    hdelta] at h hend ⊢
  obtain ⟨h0, h4, h8, h12, h16, h20, hbytes⟩ := h
  rw [parseChunkUpdateHeader, if_neg (Input.not_rest_lt hsize (by dsimp only; omega))]
  simp only [read4Bytes_eq h0 hchunk.listId, read4Bytes_eq h4 hchunk.stripeId,
    read4Bytes_eq h8 hchunk.chunkId, read4Bytes_eq h12 hoffset, read4Bytes_eq h20 hupdating,
    read4Bytes_eq h16 (show length < 2 ^ 32 by omega)]
  have htotal : 24 + (if withDelta = true then length else 0) < 2 ^ 32 := by
    split_ifs <;> omega
  rw [u32_eq htotal, if_pos (Input.le_rest hsize (by dsimp only; omega)), Option.map_some]
  cases withDelta with
  | false =>
    rw [List.length_eq_zero_iff.mp hdelta]
    rfl
  | true =>
    simp only [Bool.true_and, decide_eq_true_eq, if_true, read_of_holds hbytes (hdelta.trans (if_pos rfl))]

/-! ## Objects -/

/-- `generateKeyValueHeader`, for a pointer to the part of the value at `splitOffset`. -/
def generateKeyValuePayload (key value : List UInt8) (valueSize splitOffset splitSize : ℕ) :
    List UInt8 :=
  beBytes 1 key.length ++ beBytes 3 valueSize ++ key ++
    if splitSize = 0 ∨ splitSize = valueSize then value.take valueSize
    else beBytes 3 splitOffset ++ value.take
      (if valueSize < u32 (splitOffset + splitSize) then sub32 valueSize splitOffset else splitSize)

namespace Object

variable {cfg : GlobalConfig}

/-- The object of a message. -/
def ofParts (cfg : GlobalConfig) (key : List UInt8) (valueSize splitOffset : ℕ)
    (payload : List UInt8) : Option (Object cfg) :=
  if h : (key.length ≤ 255 ∧ valueSize < 2 ^ 24) ∧
      ((LargeObjectUtil.isLarge cfg key.length valueSize = true → splitOffset < valueSize) ∧
        (LargeObjectUtil.isLarge cfg key.length valueSize = false → splitOffset = 0)) ∧
      (LargeObjectUtil.isLarge cfg key.length valueSize = true → key.length + 7 < cfg.chunkSize) ∧
      payload.length = KeyValue.payloadSize cfg key.length valueSize splitOffset then
    some ⟨key, valueSize, splitOffset, payload, h.1.1, h.1.2, h.2.1.1, h.2.1.2, h.2.2.1, h.2.2.2⟩
  else none

theorem ofParts_eq (o : Object cfg) :
    ofParts cfg o.key o.valueSize o.splitOffset o.payload = some o :=
  dif_pos ⟨⟨o.length_key, o.valueSize_lt⟩, ⟨o.splitOffset_lt, o.splitOffset_eq⟩, o.room,
    o.length_payload⟩

theorem splitSize_of_large {o : Object cfg} (h : o.isLarge = true) :
    LargeObjectUtil.splitSize cfg o.key.length o.valueSize = cfg.chunkSize - (o.key.length + 7) := by
  have hr := o.room h
  have hc := cfg.chunkSize_le
  have hl : LargeObjectUtil.isLarge cfg o.key.length o.valueSize = true := h
  rw [LargeObjectUtil.splitSize, if_pos hl, sub32_eq (a := cfg.chunkSize) (by omega) (by omega),
    sub32_eq (a := cfg.chunkSize - 4) (by omega) (by omega), sub32_eq (by omega) (by omega)]
  omega

/-- An object is sent as it stands in a chunk. -/
theorem generateKeyValuePayload_eq (o : Object cfg) :
    generateKeyValuePayload o.key o.payload o.valueSize o.splitOffset
      (LargeObjectUtil.splitSize cfg o.key.length o.valueSize) = o.bytes := by
  have hkey : beBytes 1 o.key.length = [UInt8.ofNat o.key.length] := by simp [beBytes]
  have hlength := o.length_payload
  rw [generateKeyValuePayload, bytes, header, keyBytes, hkey]
  cases h : o.isLarge with
  | true =>
    have hl : LargeObjectUtil.isLarge cfg o.key.length o.valueSize = true := h
    have hr := o.room h
    have hlarge := o.isLarge_iff.mp h
    have hsplit := splitSize_of_large h
    rw [KeyValue.payloadSize, if_pos hl] at hlength
    rw [if_neg (by omega), ← hlength, List.take_length, if_pos rfl]
    simp only [List.append_assoc, List.cons_append, List.nil_append]
  | false =>
    have hl : LargeObjectUtil.isLarge cfg o.key.length o.valueSize = false := h
    have hplain : LargeObjectUtil.splitSize cfg o.key.length o.valueSize = o.valueSize := by
      rw [LargeObjectUtil.splitSize, hl]
      rfl
    rw [if_pos (.inr hplain), ← o.payload_of_plain h, List.take_length]
    simp

end Object

/-- The object of a SET request, and of the response to a GET request. -/
def objectFormat (cfg : GlobalConfig) : Format (Object cfg) where
  generate o := generateKeyValuePayload o.key o.payload o.valueSize o.splitOffset
    (LargeObjectUtil.splitSize cfg o.key.length o.valueSize)
  parse m size offset := (parseKeyValueHeader cfg ⟨m, size⟩ offset true false).bind fun header =>
    Object.ofParts cfg (m.read header.key header.keySize) header.valueSize header.splitOffset
      (m.read header.value
        (KeyValue.payloadSize cfg header.keySize header.valueSize header.splitOffset))

theorem objectFormat_roundTrip (cfg : GlobalConfig) :
    (objectFormat cfg).RoundTrip (2 ^ 64) fun _ => True := by
  intro o m size offset _ h hend hsize
  have hkey := o.length_key
  have hvalue := o.valueSize_lt
  have hpayload := o.length_payload
  have hoffset := o.splitOffset_lt_two_pow
  have hbytes := o.size_le
  have hc := cfg.chunkSize_le
  have hone : [UInt8.ofNat o.key.length] = beBytes 1 o.key.length := by simp [beBytes]
  simp only [objectFormat, o.generateKeyValuePayload_eq] at h hend ⊢
  have hlength : o.bytes.length = o.size := rfl
  rw [hlength, o.size_eq] at hend
  rw [o.size_eq] at hbytes
  rw [Object.bytes, Object.header, ← List.singleton_append, hone] at h
  simp only [Object.keyBytes, List.append_assoc, Memory.holds_append, length_beBytes, Nat.add_assoc,
    Nat.reduceAdd] at h
  obtain ⟨h0, h1, h4, hsplit, hvalueBytes⟩ := h
  have hkeyBytes : m.read (offset + 4) o.key.length = o.key := h4
  rw [parseKeyValueHeader, if_neg (Input.not_rest_lt hsize (by dsimp only; omega))]
  simp only [read1Byte_eq h0 (by omega), read3Bytes_eq h1 hvalue, Bool.true_and]
  cases hl : o.isLarge with
  | true =>
    have hlarge : LargeObjectUtil.isLarge cfg o.key.length o.valueSize = true := hl
    have hr := o.room hl
    have hp := o.payload_of_large hl
    have hs := o.splitOffset_lt hl
    simp only [hl, if_true, length_beBytes] at hend hsplit hvalueBytes hbytes
    rw [← Nat.add_assoc] at hsplit
    have hread : m.read (offset + 4 + o.key.length + 3) o.payload.length = o.payload := by
      rw [Nat.add_assoc offset, Nat.add_assoc offset, Nat.add_assoc]
      exact hvalueBytes
    simp only [hlarge, if_true, read3Bytes_eq hsplit hoffset, ← hpayload]
    rw [u32_eq (by omega), if_neg (Input.not_rest_lt hsize (by dsimp only; omega)),
      if_pos (by omega), Option.bind_some]
    dsimp only
    rw [← hpayload, hkeyBytes, hread, o.ofParts_eq]
  | false =>
    have hlarge : LargeObjectUtil.isLarge cfg o.key.length o.valueSize = false := hl
    have hp := o.payload_of_plain hl
    simp only [hl, Bool.false_eq_true, if_false, List.length_nil, Nat.add_zero] at hend hvalueBytes hbytes
    have hread := read_of_holds hvalueBytes hp
    rw [← Nat.add_assoc] at hread
    simp only [hlarge, Bool.false_eq_true, if_false, Key.extent, Nat.add_zero]
    rw [u32_eq (by omega), if_neg (Input.not_rest_lt hsize (by dsimp only; omega)), Option.bind_some]
    dsimp only
    have hsame : KeyValue.payloadSize cfg o.key.length o.valueSize 0 = o.valueSize := by
      rw [KeyValue.payloadSize, hlarge]
      rfl
    rw [hkeyBytes, hsame, hread, ← o.splitOffset_eq hlarge, o.ofParts_eq]

/-! ## Chunks -/

/-- `generateChunkHeader`. -/
def generateChunkPayload (md : Metadata) : List UInt8 := md.bytes

def chunkFormat : Format Metadata where
  generate := generateChunkPayload
  parse m size offset := parseChunkHeader ⟨m, size⟩ offset

theorem chunkFormat_roundTrip : chunkFormat.RoundTrip (2 ^ 64) Metadata.Fits := by
  intro md m size offset hfits h hend hsize
  simp only [chunkFormat, generateChunkPayload, Metadata.length_bytes] at h hend ⊢
  rw [parseChunkHeader, if_neg (Input.not_rest_lt hsize (by dsimp only; omega)),
    readMetadata_eq h hfits]

/-- The data of a chunk, with what is known of the chunks of the stripe that are sealed. -/
structure ChunkData where
  sealIndicator : List Bool
  chunk : Metadata
  offset : ℕ
  data : List UInt8

/-- `generateChunkDataHeader`. -/
def generateChunkDataPayload (c : ChunkData) : List UInt8 :=
  beBytes 1 c.sealIndicator.length ++ c.chunk.bytes ++ beBytes 4 c.data.length ++
    beBytes 4 c.offset ++ c.sealIndicator.map boolByte ++ c.data

/-- The array of a header that has one. -/
def readBools (m : Memory) (ptr count : ℕ) : List Bool :=
  (List.range count).map fun i => read1Byte m (ptr + i) != 0

def chunkDataFormat : Format ChunkData where
  generate := generateChunkDataPayload
  parse m size offset := (parseChunkDataHeader ⟨m, size⟩ offset).map fun header =>
    { sealIndicator := header.sealIndicator.elim [] (readBools m · header.sealIndicatorCount)
      chunk := ⟨header.listId, header.stripeId, header.chunkId⟩
      offset := header.offset
      data := m.read header.data header.size }

structure ChunkData.Fits (c : ChunkData) : Prop where
  sealIndicatorCount : c.sealIndicator.length < 2 ^ 8
  chunk : c.chunk.Fits
  offset : c.offset < 2 ^ 32
  size : 21 + c.sealIndicator.length + c.data.length < 2 ^ 32

theorem readBools_eq {m : Memory} {ptr : ℕ} {l : List Bool} (h : m.Holds ptr (l.map boolByte)) :
    readBools m ptr l.length = l := by
  induction l generalizing ptr with
  | nil => rfl
  | cons b l ih =>
    rw [List.map_cons, Memory.holds_cons] at h
    have htail := ih h.2
    simp only [readBools, List.length_cons, List.range_succ_eq_map, List.map_cons, List.map_map,
      Function.comp_def, Nat.add_zero, read1Byte_bool h.1] at htail ⊢
    simp only [Nat.add_assoc, Nat.add_comm 1] at htail
    rw [htail]

theorem chunkDataFormat_roundTrip : chunkDataFormat.RoundTrip (2 ^ 64) ChunkData.Fits := by
  rintro ⟨sealIndicator, chunk, chunkOffset, data⟩ m size offset ⟨hcount, hchunk, hoffset, hdata⟩ h
    hend hsize
  dsimp only at hcount hoffset hdata
  simp only [chunkDataFormat, generateChunkDataPayload, Metadata.bytes, List.append_assoc,
    Memory.holds_append, List.length_append, List.length_map, length_beBytes, Nat.add_assoc,
    Nat.reduceAdd] at h hend ⊢
  obtain ⟨h0, h1, h5, h9, h13, h17, hseals, hbytes⟩ := h
  have hread := read_of_holds hbytes rfl
  rw [parseChunkDataHeader, if_neg (Input.not_rest_lt hsize (by dsimp only; omega))]
  simp only [read1Byte_eq h0 hcount, read4Bytes_eq h1 hchunk.listId, read4Bytes_eq h5 hchunk.stripeId,
    read4Bytes_eq h9 hchunk.chunkId, read4Bytes_eq h13 (show data.length < 2 ^ 32 by omega),
    read4Bytes_eq h17 hoffset, Nat.add_assoc]
  rw [u32_eq (by omega), if_pos (Input.le_rest hsize (by dsimp only; omega)), Option.map_some]
  dsimp only
  rw [hread]
  cases sealIndicator with
  | nil => rfl
  | cons b l =>
    rw [if_pos (by simp), Option.elim_some, readBools_eq hseals]

end MemEC.Common
