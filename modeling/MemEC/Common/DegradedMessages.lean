import MemEC.Common.DegradedProtocol
import MemEC.Common.NormalMessages
import MemEC.Common.RecoveryProtocol

/-!
# Writing and reading messages of degraded operations

The messages about remapped and degraded stripes, the acknowledgements, and those
that carry addresses. As for normal operations, what a function `generate...Header`
writes behind the header of a message is what the function `parse...Header` reads.
-/

namespace MemEC.Common

open MemEC.Lib

/-! ## Acknowledgements -/

/-- `generateAcknowledgementHeader`. -/
def generateAcknowledgementPayload (a : AcknowledgementHeader) : List UInt8 :=
  beBytes 4 a.fromTimestamp ++ beBytes 4 a.toTimestamp

def acknowledgementFormat : Format AcknowledgementHeader where
  generate := generateAcknowledgementPayload
  parse m size offset := parseAcknowledgementHeader ⟨m, size⟩ offset

structure AcknowledgementHeader.Fits (a : AcknowledgementHeader) : Prop where
  fromTimestamp : a.fromTimestamp < 2 ^ 32
  toTimestamp : a.toTimestamp < 2 ^ 32

theorem acknowledgementFormat_roundTrip :
    acknowledgementFormat.RoundTrip (2 ^ 64) AcknowledgementHeader.Fits := by
  rintro ⟨first, last⟩ m size offset ⟨hfirst, hlast⟩ h hend hsize
  simp only [acknowledgementFormat, generateAcknowledgementPayload, Memory.holds_append,
    List.length_append, length_beBytes] at h hend ⊢
  rw [parseAcknowledgementHeader, if_neg (Input.not_rest_lt hsize (by dsimp only; omega))]
  dsimp only
  rw [read4Bytes_eq h.1 hfirst, read4Bytes_eq h.2 hlast]

/-- The timestamps and the keys of the requests that a server acknowledges, or that a client asks it
to revert. -/
structure DeltaAcknowledgement where
  timestamps : List ℕ
  requests : List Key
  targetId : ℕ

/-- `generateDeltaAcknowledgementHeader`. -/
def generateDeltaAcknowledgementPayload (a : DeltaAcknowledgement) : List UInt8 :=
  beBytes 4 a.timestamps.length ++ beBytes 4 a.requests.length ++ beBytes 2 a.targetId ++
    a.timestamps.flatMap (beBytes 4) ++ a.requests.flatMap keyRecord

def deltaAcknowledgementFormat : Format DeltaAcknowledgement where
  generate := generateDeltaAcknowledgementPayload
  parse m size offset := (parseDeltaAcknowledgementHeader ⟨m, size⟩ true true offset).map fun r =>
    ⟨r.2.1, r.2.2, r.1.targetId⟩

/-- The split offset of a key is not written. -/
structure DeltaAcknowledgement.Fits (a : DeltaAcknowledgement) : Prop where
  timestamps : ∀ t ∈ a.timestamps, t < 2 ^ 32
  requests : ∀ key ∈ a.requests, key.isLarge = false ∧ key.size < 2 ^ 8
  targetId : a.targetId < 2 ^ 16
  size : (generateDeltaAcknowledgementPayload a).length < 2 ^ 32

theorem length_keyRecord_of_plain {key : Key} (h : key.isLarge = false) :
    (keyRecord key).length = 1 + key.size := by
  have hdata : key.data.length = key.size := by simp [key.length_data, Key.extent, h]
  simp [keyRecord, hdata]

theorem length_le_flatMap_keyRecord (keys : List Key) :
    keys.length ≤ (keys.flatMap keyRecord).length := by
  induction keys with
  | nil => exact Nat.le_refl 0
  | cons key keys ih =>
    simp only [List.flatMap_cons, List.length_append, List.length_cons, keyRecord, length_beBytes]
    omega

/-- The loop over the keys reads those that stand there. -/
theorem parseDeltaKeys_eq {input : Input} {offset tsCount : ℕ} {keys : List Key} {ptr bytes : ℕ}
    (h : input.bytes.Holds ptr (keys.flatMap keyRecord))
    (hkeys : ∀ key ∈ keys, key.isLarge = false ∧ key.size < 2 ^ 8)
    (hsize : input.size < 2 ^ 64)
    (hfits : 10 + tsCount * 4 + bytes + (keys.flatMap keyRecord).length < 2 ^ 32)
    (hrest : offset + (10 + tsCount * 4 + bytes + (keys.flatMap keyRecord).length) ≤ input.size) :
    parseDeltaKeys input offset tsCount keys.length ptr bytes = some keys := by
  induction keys generalizing ptr bytes with
  | nil => rfl
  | cons key keys ih =>
    obtain ⟨hplain, hkey⟩ := hkeys key List.mem_cons_self
    have hlength := length_keyRecord_of_plain hplain
    have hdata : key.data.take key.size = key.data :=
      List.take_of_length_le (by simp [key.length_data, Key.extent, hplain])
    rw [List.flatMap_cons, Memory.holds_append, hlength, keyRecord, hdata, Memory.holds_append,
      length_beBytes] at h
    rw [List.flatMap_cons, List.length_append, hlength] at hfits hrest
    obtain ⟨⟨hfirst, hbytes⟩, hnext⟩ := h
    have hread : Key.ofMemory input.bytes (ptr + 1) key.size false = key := by
      rw [← hplain]
      exact Key.ofMemory_eq hbytes
    rw [List.length_cons, parseDeltaKeys]
    simp only [read1Byte_eq hfirst hkey]
    rw [u32_eq (show bytes + (1 + key.size) < 2 ^ 32 by omega), u32_eq (by omega),
      if_neg (Input.not_rest_lt hsize (by omega)), hread, Nat.add_assoc ptr,
      ih hnext (fun k hk => hkeys k (List.mem_cons_of_mem key hk)) (by omega) (by omega),
      Option.map_some]

theorem deltaAcknowledgementFormat_roundTrip :
    deltaAcknowledgementFormat.RoundTrip (2 ^ 64) DeltaAcknowledgement.Fits := by
  rintro ⟨timestamps, requests, targetId⟩ m size offset ⟨htimestamps, hrequests, htarget, hfits⟩ h
    hend hsize
  have hcount := length_le_flatMap_keyRecord requests
  simp only [deltaAcknowledgementFormat, generateDeltaAcknowledgementPayload, List.append_assoc,
    Memory.holds_append, List.length_append, length_beBytes, length_words, Nat.add_assoc,
    Nat.reduceAdd] at htimestamps hrequests htarget hfits h hend ⊢
  obtain ⟨h0, h4, h8, hwords, hkeys⟩ := h
  rw [parseDeltaAcknowledgementHeader, if_neg (Input.not_rest_lt hsize (by dsimp only; omega))]
  simp only [read4Bytes_eq h0 (show timestamps.length < 2 ^ 32 by omega),
    read4Bytes_eq h4 (show requests.length < 2 ^ 32 by omega), read2Bytes_eq h8 htarget]
  have hloop : parseDeltaKeys ⟨m, size⟩ offset timestamps.length requests.length
      (offset + 10 + 4 * timestamps.length) 0 = some requests := by
    refine parseDeltaKeys_eq ?_ hrequests hsize (by omega) (by dsimp only; omega)
    rwa [Nat.add_assoc offset]
  rw [u32_eq (by omega), if_neg (Input.not_rest_lt hsize (by dsimp only; omega))]
  simp only [Bool.not_true, Bool.false_eq_true, if_false, hloop, Option.map_some,
    readWords_eq hwords htimestamps]

/-! ## Redirected chunks -/

/-- The entries of two parallel arrays. -/
def readRedirections (m : Memory) (original target count : ℕ) : List Redirection :=
  List.zipWith Redirection.mk (readIds m original count) (readIds m target count)

theorem zipWith_redirection (l : List Redirection) :
    List.zipWith Redirection.mk (l.map Redirection.original) (l.map Redirection.target) = l := by
  induction l with
  | nil => rfl
  | cons e l ih => simp only [List.map_cons, List.zipWith_cons_cons, ih]

theorem readRedirections_eq {m : Memory} {original target : ℕ} {l : List Redirection}
    (horiginal : m.Holds original (originalBytes l)) (htarget : m.Holds target (targetBytes l))
    (hl : ∀ e ∈ l, e.Fits) (hcount : l.length < 2 ^ 31) :
    readRedirections m original target l.length = l := by
  rw [readRedirections, readIds_originalBytes horiginal hl hcount,
    readIds_targetBytes htarget hl hcount, zipWith_redirection]

/-- The pointers may be null when there are no entries. -/
theorem readRedirections_of_holds {m : Memory} {original target : ℕ} {l : List Redirection}
    (horiginal : m.Holds original (originalBytes l)) (htarget : m.Holds target (targetBytes l))
    (hl : ∀ e ∈ l, e.Fits) (hcount : l.length < 2 ^ 31) :
    readRedirections m (if l.length ≠ 0 then original else 0) (if l.length ≠ 0 then target else 0)
      l.length = l := by
  cases l with
  | nil => rfl
  | cons e l =>
    rw [if_pos (by simp), if_pos (by simp)]
    exact readRedirections_eq horiginal htarget hl hcount

/-- A request for a lock on a key, or the reply to one, with redirected chunks. -/
structure KeyRedirections where
  key : Key
  redirections : List Redirection

/-- Four times the number of numbers in the arrays is a `uint32_t`. -/
structure KeyRedirections.Fits (r : KeyRedirections) : Prop where
  key : r.key.size < 2 ^ 8
  redirections : ∀ e ∈ r.redirections, e.Fits
  count : r.redirections.length < 2 ^ 28

/-- `generateRemappingLockHeader`. -/
def generateRemappingLockPayload (r : KeyRedirections) : List UInt8 :=
  beBytes 4 r.redirections.length ++ beBytes 1 r.key.size ++ [boolByte r.key.isLarge] ++ r.key.data ++
    originalBytes r.redirections ++ targetBytes r.redirections

def remappingLockFormat : Format KeyRedirections where
  generate := generateRemappingLockPayload
  parse m size offset := (parseRemappingLockHeader ⟨m, size⟩ offset).map fun header =>
    ⟨Key.ofMemory m header.key header.keySize header.isLarge,
      readRedirections m header.original header.remapped header.remappedCount⟩

theorem remappingLockFormat_roundTrip :
    remappingLockFormat.RoundTrip (2 ^ 64) KeyRedirections.Fits := by
  rintro ⟨key, redirections⟩ m size offset ⟨hkey, hredirections, hcount⟩ h hend hsize
  dsimp only at hkey hredirections hcount
  simp only [remappingLockFormat, generateRemappingLockPayload, List.append_assoc, List.cons_append,
    List.nil_append, Memory.holds_cons, Memory.holds_append, List.length_cons, List.length_append,
    length_beBytes, key.length_data, length_originalBytes, length_targetBytes, Nat.add_assoc,
    Nat.reduceAdd] at h hend ⊢
  obtain ⟨h0, h4, h5, hdata, horiginal, htarget⟩ := h
  have hextent : key.size ≤ Key.extent key.size key.isLarge := Nat.le_add_right _ _
  rw [parseRemappingLockHeader, if_neg (Input.not_rest_lt hsize (by dsimp only; omega))]
  simp only [read4Bytes_eq h0 (show redirections.length < 2 ^ 32 by omega), read1Byte_eq h4 hkey,
    read1Byte_bool h5, Nat.add_assoc]
  have hread := readRedirections_eq horiginal
    (show m.Holds (offset + (6 + (Key.extent key.size key.isLarge + 4 * (redirections.length * 2))))
      (targetBytes redirections) by
        rwa [show 4 * (redirections.length * 2) = 8 * redirections.length by omega])
    hredirections (by omega)
  rw [u32_eq (by omega), u32_eq (by omega),
    if_neg (Input.not_rest_lt hsize (by dsimp only; omega)), Option.map_some]
  dsimp only
  rw [Key.ofMemory_eq hdata, hread]

/-- `generateDegradedLockReqHeader`. There is always a split offset behind the key. -/
def generateDegradedLockReqPayload (r : KeyRedirections) : List UInt8 :=
  beBytes 4 r.redirections.length ++ beBytes 1 r.key.size ++ [boolByte r.key.isLarge] ++ r.key.data ++
    (if r.key.isLarge then [] else beBytes 3 0) ++
    originalBytes r.redirections ++ targetBytes r.redirections

def degradedLockReqFormat : Format KeyRedirections where
  generate := generateDegradedLockReqPayload
  parse m size offset := (parseDegradedLockReqHeader ⟨m, size⟩ offset).map fun header =>
    ⟨Key.ofMemory m header.key header.keySize header.isLarge,
      readRedirections m header.original header.reconstructed header.reconstructedCount⟩

theorem degradedLockReqFormat_roundTrip :
    degradedLockReqFormat.RoundTrip (2 ^ 64) KeyRedirections.Fits := by
  rintro ⟨key, redirections⟩ m size offset ⟨hkey, hredirections, hcount⟩ h hend hsize
  dsimp only at hkey hredirections hcount
  have hplace : Key.extent key.size key.isLarge +
      (if key.isLarge then [] else beBytes 3 0 : List UInt8).length = key.size + 3 := by
    cases key.isLarge <;> rfl
  simp only [degradedLockReqFormat, generateDegradedLockReqPayload, List.append_assoc,
    List.cons_append, List.nil_append, Memory.holds_cons, Memory.holds_append, List.length_cons,
    List.length_append, length_beBytes, key.length_data, length_originalBytes, length_targetBytes,
    Nat.add_assoc, Nat.reduceAdd] at h hend ⊢
  obtain ⟨h0, h4, h5, hdata, -, horiginal, htarget⟩ := h
  rw [hplace] at horiginal
  rw [← Nat.add_assoc (Key.extent key.size key.isLarge), hplace] at htarget hend
  rw [parseDegradedLockReqHeader, if_neg (Input.not_rest_lt hsize (by dsimp only; omega))]
  simp only [read4Bytes_eq h0 (show redirections.length < 2 ^ 32 by omega), read1Byte_eq h4 hkey,
    read1Byte_bool h5, Nat.add_assoc] at htarget ⊢
  have hread := readRedirections_eq horiginal
    (show m.Holds (offset + (6 + (key.size + (3 + 4 * (redirections.length * 2)))))
      (targetBytes redirections) by
        rwa [show 4 * (redirections.length * 2) = 8 * redirections.length by omega])
    hredirections (by omega)
  rw [u32_eq (by omega), u32_eq (by omega),
    if_neg (Input.not_rest_lt hsize (by dsimp only; omega)), Option.map_some]
  dsimp only
  rw [Key.ofMemory_eq hdata, hread]

/-- A SET request while the stripe is degraded. -/
structure DegradedSet (cfg : GlobalConfig) where
  listId : ℕ
  chunkId : ℕ
  isLarge : Bool
  object : Object cfg
  redirections : List Redirection

/-- `generateDegradedSetHeader`; `value i` is what `value + i` points to. The arrays follow the
value. -/
def generateDegradedSetPayload (listId chunkId : ℕ) (redirections : List Redirection)
    (key : List UInt8) (valueSize : ℕ) (value : ℕ → List UInt8) (splitOffset splitSize : ℕ) :
    List UInt8 :=
  let isLarge : Bool := !(splitSize = 0 ∨ splitSize = valueSize : Bool)
  beBytes 4 listId ++ beBytes 4 chunkId ++ beBytes 4 redirections.length ++ beBytes 1 key.length ++
    beBytes 3 valueSize ++ [boolByte isLarge] ++ key ++
    (if isLarge then
      beBytes 3 splitOffset ++ (value splitOffset).take
        (if valueSize < u32 (splitOffset + splitSize) then sub32 valueSize splitOffset else splitSize)
    else (value 0).take valueSize) ++
    (originalBytes redirections ++ targetBytes redirections)

namespace DegradedSet

variable {cfg : GlobalConfig}

structure Fits (d : DegradedSet cfg) : Prop where
  listId : d.listId < 2 ^ 32
  chunkId : d.chunkId < 2 ^ 32
  isLarge : d.isLarge = d.object.isLarge
  redirections : ∀ e ∈ d.redirections, e.Fits
  count : d.redirections.length < 2 ^ 27

/-- What the client passes to `generateDegradedSetHeader`. -/
def bytes (d : DegradedSet cfg) : List UInt8 :=
  generateDegradedSetPayload d.listId d.chunkId d.redirections d.object.key d.object.valueSize
    (fun _ => d.object.payload) d.object.splitOffset
    (if d.object.isLarge then
      LargeObjectUtil.splitSize cfg d.object.key.length d.object.valueSize
    else 0)

/-- The value stands between the key and the arrays as in a chunk. -/
theorem bytes_eq (d : DegradedSet cfg) :
    d.bytes = beBytes 4 d.listId ++ (beBytes 4 d.chunkId ++ (beBytes 4 d.redirections.length ++
      (beBytes 1 d.object.key.length ++ (beBytes 3 d.object.valueSize ++
      (boolByte d.object.isLarge :: (d.object.keyBytes ++ (d.object.payload ++
      (originalBytes d.redirections ++ targetBytes d.redirections)))))))) := by
  have hlength := d.object.length_payload
  rw [bytes, generateDegradedSetPayload, Object.keyBytes]
  cases h : d.object.isLarge with
  | true =>
    have hl : LargeObjectUtil.isLarge cfg d.object.key.length d.object.valueSize = true := h
    have hr := d.object.room h
    have hlarge := d.object.isLarge_iff.mp h
    have hsplit := Object.splitSize_of_large h
    rw [KeyValue.payloadSize, if_pos hl] at hlength
    have hnot : ¬ (LargeObjectUtil.splitSize cfg d.object.key.length d.object.valueSize = 0 ∨
        LargeObjectUtil.splitSize cfg d.object.key.length d.object.valueSize =
          d.object.valueSize) := by
      omega
    simp only [if_true, decide_eq_false hnot, Bool.not_false, ← hlength, List.take_length,
      List.append_assoc, List.cons_append, List.nil_append]
  | false =>
    have htake : d.object.payload.take d.object.valueSize = d.object.payload := by
      rw [← d.object.payload_of_plain h, List.take_length]
    simp [htake]

end DegradedSet

def degradedSetFormat (cfg : GlobalConfig) : Format (DegradedSet cfg) where
  generate d := d.bytes
  parse m size offset := (parseDegradedSetHeader cfg ⟨m, size⟩ offset).bind fun header =>
    (Object.ofParts cfg (m.read header.key header.keySize) header.valueSize header.splitOffset
      (m.read header.value
        (KeyValue.payloadSize cfg header.keySize header.valueSize header.splitOffset))).map
      fun object =>
        { listId := header.listId
          chunkId := header.chunkId
          isLarge := header.isLarge
          object
          redirections :=
            readRedirections m header.original header.remapped header.remappedCount }

theorem degradedSetFormat_roundTrip (cfg : GlobalConfig) :
    (degradedSetFormat cfg).RoundTrip (2 ^ 64) DegradedSet.Fits := by
  rintro ⟨listId, chunkId, isLarge, o, redirections⟩ m size offset
    ⟨hlist, hchunk, hlarge, hredirections, hcount⟩ h hend hsize
  dsimp only at hlist hchunk hlarge hredirections hcount
  subst hlarge
  have hkey := o.length_key
  have hvalue := o.valueSize_lt
  have hpayload := o.length_payload
  have hoffset := o.splitOffset_lt_two_pow
  have hbytes := o.size_le
  have hc := cfg.chunkSize_le
  rw [o.size_eq] at hbytes
  simp only [degradedSetFormat, DegradedSet.bytes_eq, Object.keyBytes, List.append_assoc,
    Memory.holds_cons, Memory.holds_append, List.length_cons, List.length_append, length_beBytes,
    length_originalBytes, length_targetBytes, Nat.add_assoc, Nat.reduceAdd] at h hend ⊢
  obtain ⟨h0, h4, h8, h12, h13, h16, hkeyAt, hsplit, hvalueAt, horiginal, htarget⟩ := h
  have hkeyBytes : m.read (offset + 17) o.key.length = o.key := hkeyAt
  have height : 4 * (redirections.length * 2) = 8 * redirections.length := by omega
  rw [parseDegradedSetHeader, if_neg (Input.not_rest_lt hsize (by dsimp only; omega))]
  simp only [read4Bytes_eq h0 hlist, read4Bytes_eq h4 hchunk,
    read4Bytes_eq h8 (show redirections.length < 2 ^ 32 by omega), read1Byte_eq h12 (by omega),
    read3Bytes_eq h13 hvalue, read1Byte_bool h16, Nat.add_assoc]
  cases hl : o.isLarge with
  | true =>
    have hlarge : LargeObjectUtil.isLarge cfg o.key.length o.valueSize = true := hl
    have hr := o.room hl
    have hp := o.payload_of_large hl
    simp only [hl, if_true, length_beBytes] at hend hsplit hvalueAt horiginal htarget hbytes
    simp only [hlarge, if_true, read3Bytes_eq hsplit hoffset, ← hpayload]
    rw [u32_eq (by omega), u32_eq (by omega),
      if_neg (Input.not_rest_lt hsize (by dsimp only; omega)), Option.bind_some]
    dsimp only
    have hread : m.read (offset + (17 + (o.key.length + 3))) o.payload.length = o.payload := hvalueAt
    have harrays := readRedirections_of_holds horiginal htarget hredirections (by omega)
    rw [← hpayload, hkeyBytes, hread, o.ofParts_eq, Option.map_some]
    simp only [height, harrays]
  | false =>
    have hlarge : LargeObjectUtil.isLarge cfg o.key.length o.valueSize = false := hl
    have hp := o.payload_of_plain hl
    simp only [hl, Bool.false_eq_true, if_false, List.length_nil, Nat.add_zero, Nat.zero_add, hp]
      at hend hvalueAt horiginal htarget hbytes
    simp only [hlarge, Bool.false_eq_true, if_false]
    rw [u32_eq (by omega), u32_eq (by omega),
      if_neg (Input.not_rest_lt hsize (by dsimp only; omega)), Option.bind_some]
    dsimp only
    have hread : m.read (offset + (17 + o.key.length)) o.valueSize = o.payload := by
      rw [← hp]
      exact hvalueAt
    have hsame : KeyValue.payloadSize cfg o.key.length o.valueSize 0 = o.valueSize := by
      rw [KeyValue.payloadSize, hlarge]
      rfl
    have harrays := readRedirections_of_holds horiginal htarget hredirections (by omega)
    have hobject : Object.ofParts cfg o.key o.valueSize 0 o.payload = some o := by
      rw [← o.splitOffset_eq hlarge, o.ofParts_eq]
    rw [hsame, hkeyBytes, hread, hobject, Option.map_some]
    simp only [height, harrays]

/-! ## Forwarded keys -/

/-- The part of a value that an update changes. -/
structure ForwardUpdate where
  valueUpdateSize : ℕ
  valueUpdateOffset : ℕ
  valueUpdate : List UInt8

/-- An object that the server of a degraded chunk hands on. A response leaves the values out. -/
structure ForwardKey where
  opcode : ℕ
  chunk : Metadata
  key : List UInt8
  valueSize : ℕ
  value : List UInt8
  update : Option ForwardUpdate

/-- The functions `generateForwardKeyReqHeader` and `generateForwardKeyResHeader`, which write what
follows the value for the opcode of updates only. -/
def generateForwardKeyPayload (f : ForwardKey) : List UInt8 :=
  beBytes 1 f.opcode ++ f.chunk.bytes ++ beBytes 1 f.key.length ++ beBytes 3 f.valueSize ++ f.key ++
    f.value ++ f.update.elim [] fun u =>
      beBytes 3 u.valueUpdateSize ++ beBytes 3 u.valueUpdateOffset ++ u.valueUpdate

def forwardKeyFormat (isRequest : Bool) : Format ForwardKey where
  generate := generateForwardKeyPayload
  parse m size offset :=
    (if isRequest then parseForwardKeyReqHeader ⟨m, size⟩ offset
      else parseForwardKeyResHeader ⟨m, size⟩ offset).map fun header =>
      { opcode := header.opcode
        chunk := ⟨header.listId, header.stripeId, header.chunkId⟩
        key := m.read header.key header.keySize
        valueSize := header.valueSize
        value := header.value.elim [] (m.read · header.valueSize)
        update := header.update.map fun u =>
          ⟨u.valueUpdateSize, u.valueUpdateOffset, u.valueUpdate.elim [] (m.read · u.valueUpdateSize)⟩ }

structure ForwardUpdate.Fits (isRequest : Bool) (u : ForwardUpdate) : Prop where
  valueUpdateSize : u.valueUpdateSize < 2 ^ 24
  valueUpdateOffset : u.valueUpdateOffset < 2 ^ 24
  valueUpdate : u.valueUpdate.length = if isRequest then u.valueUpdateSize else 0

/-- The `8` is `PROTO_OPCODE_DEGRADED_UPDATE`. -/
structure ForwardKey.Fits (isRequest : Bool) (f : ForwardKey) : Prop where
  opcode : f.opcode < 2 ^ 8
  chunk : f.chunk.Fits
  key : f.key.length < 2 ^ 8
  valueSize : f.valueSize < 2 ^ 24
  value : f.value.length = if isRequest then f.valueSize else 0
  update : f.update.isSome = decide (f.opcode = 8)
  updates : ∀ u, f.update = some u → u.Fits isRequest

theorem forwardKeyFormat_roundTrip (isRequest : Bool) :
    (forwardKeyFormat isRequest).RoundTrip (2 ^ 64) (ForwardKey.Fits isRequest) := by
  rintro ⟨opcode, chunk, key, valueSize, value, update⟩ m size offset
    ⟨hopcode, hchunk, hkey, hvalueSize, hvalue, hupdate, hupdates⟩ h hend hsize
  dsimp only at hopcode hkey hvalueSize hvalue hupdate hupdates
  simp only [forwardKeyFormat, generateForwardKeyPayload, Metadata.bytes, List.append_assoc,
    Memory.holds_append, List.length_append, length_beBytes, Nat.add_assoc, Nat.reduceAdd] at h hend ⊢
  obtain ⟨h0, h1, h5, h9, h13, h14, hkeyAt, hvalueAt, hupdateAt⟩ := h
  have hkeyBytes : m.read (offset + 17) key.length = key := hkeyAt
  have hvalueBytes : m.read (offset + (17 + key.length)) value.length = value := hvalueAt
  cases isRequest with
  | true =>
    simp only [if_true] at hvalue ⊢
    rw [hvalue] at hvalueBytes hupdateAt hend
    rw [parseForwardKeyReqHeader, if_neg (Input.not_rest_lt hsize (by dsimp only; omega))]
    simp only [read1Byte_eq h0 hopcode, read4Bytes_eq h1 hchunk.listId,
      read4Bytes_eq h5 hchunk.stripeId, read4Bytes_eq h9 hchunk.chunkId, read1Byte_eq h13 hkey,
      read3Bytes_eq h14 hvalueSize, Nat.add_assoc]
    rw [if_neg (Input.not_rest_lt hsize (by dsimp only; omega))]
    cases update with
    | none =>
      have hne : opcode ≠ 8 := by simpa using hupdate
      rw [if_neg hne, Option.map_some, hkeyBytes, Option.elim_some, hvalueBytes]
      rfl
    | some u =>
      have heq : opcode = 8 := by simpa using hupdate
      obtain ⟨hsizeFits, hoffsetFits, hbytes⟩ := hupdates u rfl
      simp only [Option.elim_some, if_true, Memory.holds_append, List.length_append, length_beBytes,
        Nat.add_assoc, Nat.reduceAdd] at hupdateAt hend hbytes
      obtain ⟨hfirst, hsecond, hthird⟩ := hupdateAt
      rw [hbytes] at hend
      rw [if_pos heq, if_neg (Input.not_rest_lt hsize (by dsimp only; omega))]
      rw [read3Bytes_eq hfirst hsizeFits, read3Bytes_eq hsecond hoffsetFits,
        if_neg (Input.not_rest_lt hsize (by dsimp only; omega)), Option.map_some, hkeyBytes,
        Option.elim_some, hvalueBytes, Option.map_some, Option.elim_some]
      have hread : m.read (offset + (17 + (key.length + (valueSize + 6)))) u.valueUpdateSize =
          u.valueUpdate := by
        rw [← hbytes]
        exact hthird
      rw [hread]
  | false =>
    simp only [Bool.false_eq_true, if_false] at hvalue ⊢
    obtain rfl := List.length_eq_zero_iff.mp hvalue
    simp only [List.length_nil, Nat.add_zero, Nat.zero_add] at hupdateAt hend
    rw [parseForwardKeyResHeader, if_neg (Input.not_rest_lt hsize (by dsimp only; omega))]
    simp only [read1Byte_eq h0 hopcode, read4Bytes_eq h1 hchunk.listId,
      read4Bytes_eq h5 hchunk.stripeId, read4Bytes_eq h9 hchunk.chunkId, read1Byte_eq h13 hkey,
      read3Bytes_eq h14 hvalueSize, Nat.add_assoc]
    rw [if_neg (Input.not_rest_lt hsize (by dsimp only; omega))]
    cases update with
    | none =>
      have hne : opcode ≠ 8 := by simpa using hupdate
      rw [if_neg hne, Option.map_some, hkeyBytes]
      rfl
    | some u =>
      have heq : opcode = 8 := by simpa using hupdate
      obtain ⟨hsizeFits, hoffsetFits, hbytes⟩ := hupdates u rfl
      simp only [Bool.false_eq_true, if_false] at hbytes
      simp only [Option.elim_some, Memory.holds_append, List.length_append, length_beBytes,
        Nat.add_assoc, Nat.reduceAdd] at hupdateAt hend
      obtain ⟨hfirst, hsecond, -⟩ := hupdateAt
      rw [if_pos heq, if_neg (Input.not_rest_lt hsize (by dsimp only; omega)),
        read3Bytes_eq hfirst hsizeFits, read3Bytes_eq hsecond hoffsetFits, Option.map_some,
        hkeyBytes, Option.map_some, Option.elim_none, Option.elim_none,
        ← List.length_eq_zero_iff.mp hbytes]

/-! ## Lists and counts -/

/-- A GET request for a parity server, which finds the key by its list and chunk. -/
structure ListStripeKey where
  listId : ℕ
  chunkId : ℕ
  key : Key

/-- `generateListStripeKeyHeader`. -/
def generateListStripeKeyPayload (l : ListStripeKey) : List UInt8 :=
  beBytes 4 l.listId ++ beBytes 4 l.chunkId ++ beBytes 1 l.key.size ++ l.key.data

/-- The header of the message says whether the key is that of a split. -/
def listStripeKeyFormat (isLarge : Bool) : Format ListStripeKey where
  generate := generateListStripeKeyPayload
  parse m size offset := (parseListStripeKeyHeader ⟨m, size⟩ isLarge offset).map fun header =>
    ⟨header.listId, header.chunkId, Key.ofMemory m header.key header.keySize isLarge⟩

structure ListStripeKey.Fits (isLarge : Bool) (l : ListStripeKey) : Prop where
  listId : l.listId < 2 ^ 32
  chunkId : l.chunkId < 2 ^ 32
  key : KeyFits isLarge l.key

theorem listStripeKeyFormat_roundTrip (isLarge : Bool) :
    (listStripeKeyFormat isLarge).RoundTrip (2 ^ 64) (ListStripeKey.Fits isLarge) := by
  rintro ⟨listId, chunkId, key⟩ m size offset ⟨hlist, hchunk, hlarge, hkey⟩ h hend hsize
  dsimp only at hlist hchunk hlarge hkey
  subst hlarge
  simp only [listStripeKeyFormat, generateListStripeKeyPayload, List.append_assoc,
    Memory.holds_append, List.length_append, length_beBytes, key.length_data, Nat.add_assoc,
    Nat.reduceAdd] at h hend ⊢
  obtain ⟨h0, h4, h8, hdata⟩ := h
  rw [parseListStripeKeyHeader, if_neg (Input.not_rest_lt hsize (by dsimp only; omega))]
  simp only [read4Bytes_eq h0 hlist, read4Bytes_eq h4 hchunk, read1Byte_eq h8 hkey]
  rw [if_pos (Input.le_rest hsize (by dsimp only; omega)), Option.map_some, Key.ofMemory_eq hdata]

/-- `generateDegradedReleaseResHeader`. -/
def generateDegradedReleaseResPayload (r : DegradedReleaseResHeader) : List UInt8 :=
  beBytes 4 r.count

def degradedReleaseResFormat : Format DegradedReleaseResHeader where
  generate := generateDegradedReleaseResPayload
  parse m size offset := parseDegradedReleaseResHeader ⟨m, size⟩ offset

theorem degradedReleaseResFormat_roundTrip :
    degradedReleaseResFormat.RoundTrip (2 ^ 64) fun r => r.count < 2 ^ 32 := by
  intro r m size offset hcount h hend hsize
  simp only [degradedReleaseResFormat, generateDegradedReleaseResPayload, length_beBytes] at h hend ⊢
  rw [parseDegradedReleaseResHeader, if_neg (Input.not_rest_lt hsize (by dsimp only; omega)),
    read4Bytes_eq h hcount]

/-! ## Addresses -/

/-- `generateAddressHeader`. -/
def generateAddressPayload (a : NetworkAddr) : List UInt8 := a.addr ++ a.port

/-- An address at `ptr`. -/
def readNetworkAddr (m : Memory) (ptr : ℕ) : NetworkAddr :=
  ⟨m.read ptr 4, m.read (ptr + 4) 2, by simp, by simp⟩

theorem readNetworkAddr_eq {m : Memory} {ptr : ℕ} {a : NetworkAddr}
    (h : m.Holds ptr (generateAddressPayload a)) : readNetworkAddr m ptr = a := by
  obtain ⟨addr, port, haddr, hport⟩ := a
  rw [generateAddressPayload, Memory.holds_append, haddr] at h
  obtain ⟨h0, h4⟩ := h
  rw [Memory.Holds, haddr] at h0
  rw [Memory.Holds, hport] at h4
  simp only [readNetworkAddr, h0, h4]

theorem length_generateAddressPayload (a : NetworkAddr) : (generateAddressPayload a).length = 6 := by
  rw [generateAddressPayload, List.length_append, a.length_addr, a.length_port]

/-- `parseAddressHeader`. The `6` is `PROTO_ADDRESS_SIZE`. -/
def parseAddressHeader (input : Input) (offset : ℕ) : Option NetworkAddr :=
  if input.rest offset < 6 then none else some (readNetworkAddr input.bytes offset)

/-- `parseSrcDstAddressHeader`. -/
def parseSrcDstAddressHeader (input : Input) (offset : ℕ) : Option (NetworkAddr × NetworkAddr) :=
  if input.rest offset < 12 then none
  else some (readNetworkAddr input.bytes offset, readNetworkAddr input.bytes (offset + 6))

def addressFormat : Format NetworkAddr where
  generate := generateAddressPayload
  parse m size offset := parseAddressHeader ⟨m, size⟩ offset

theorem addressFormat_roundTrip : addressFormat.RoundTrip (2 ^ 64) fun _ => True := by
  intro a m size offset _ h hend hsize
  simp only [addressFormat, length_generateAddressPayload] at h hend ⊢
  rw [parseAddressHeader, if_neg (Input.not_rest_lt hsize (by dsimp only; omega)),
    readNetworkAddr_eq h]

/-- `generateSrcDstAddressHeader`. -/
def generateSrcDstAddressPayload (a : NetworkAddr × NetworkAddr) : List UInt8 :=
  generateAddressPayload a.1 ++ generateAddressPayload a.2

def srcDstAddressFormat : Format (NetworkAddr × NetworkAddr) where
  generate := generateSrcDstAddressPayload
  parse m size offset := parseSrcDstAddressHeader ⟨m, size⟩ offset

theorem srcDstAddressFormat_roundTrip :
    srcDstAddressFormat.RoundTrip (2 ^ 64) fun _ => True := by
  intro a m size offset _ h hend hsize
  simp only [srcDstAddressFormat, generateSrcDstAddressPayload, Memory.holds_append,
    List.length_append, length_generateAddressPayload] at h hend ⊢
  rw [parseSrcDstAddressHeader, if_neg (Input.not_rest_lt hsize (by dsimp only; omega)),
    readNetworkAddr_eq h.1, readNetworkAddr_eq h.2]

/-! ## Load statistics -/

/-- The latency of a server. -/
structure LoadRecord where
  server : NetworkAddr
  sec : ℕ
  nsec : ℕ

/-- What clients tell the coordinator, and the coordinator the clients. -/
structure LoadStats where
  serverGetLatency : List LoadRecord
  serverSetLatency : List LoadRecord
  overloadedServerSet : List NetworkAddr

/-- One turn of the loop over both lists. -/
def LoadRecord.bytes (r : LoadRecord) : List UInt8 :=
  generateAddressPayload r.server ++ beBytes 4 r.sec ++ beBytes 4 r.nsec

/-- `reqPushLoadStats`, with `generateLoadStatsHeader`. -/
def reqPushLoadStatsPayload (s : LoadStats) : List UInt8 :=
  beBytes 4 s.serverGetLatency.length ++ beBytes 4 s.serverSetLatency.length ++
    beBytes 4 s.overloadedServerSet.length ++
    (s.serverGetLatency ++ s.serverSetLatency).flatMap LoadRecord.bytes ++
    s.overloadedServerSet.flatMap generateAddressPayload

/-- `LoadStatsHeader`. -/
structure LoadStatsHeader where
  serverGetCount : ℕ
  serverSetCount : ℕ
  serverOverloadCount : ℕ
deriving DecidableEq

/-- `parseLoadStatsHeader`. The `12` is `PROTO_LOAD_STATS_SIZE`. -/
def parseLoadStatsHeader (input : Input) (offset : ℕ) : Option LoadStatsHeader :=
  let m := input.bytes
  if input.rest offset < 12 then none
  else some ⟨read4Bytes m offset, read4Bytes m (offset + 4), read4Bytes m (offset + 8)⟩

def readLoadRecord (m : Memory) (ptr : ℕ) : LoadRecord :=
  ⟨readNetworkAddr m ptr, read4Bytes m (ptr + 6), read4Bytes m (ptr + 10)⟩

/-- `parseLoadingStats` of a client, and that of the coordinator, which has no list of overloaded
servers. The size is a `uint32_t`. -/
def parseLoadingStats (toClient : Bool) (header : LoadStatsHeader) (m : Memory) (buffer size : ℕ) :
    Option LoadStats :=
  let count := u32 (header.serverGetCount + header.serverSetCount)
  if u32 size < u32 (count * 14 + if toClient then header.serverOverloadCount * 6 else 0) then none
  else
    let records := (List.range count).map fun i => readLoadRecord m (buffer + 14 * i)
    some
      { serverGetLatency := records.take header.serverGetCount
        serverSetLatency := records.drop header.serverGetCount
        overloadedServerSet :=
          if toClient then (List.range header.serverOverloadCount).map fun i =>
            readNetworkAddr m (buffer + 14 * count + 6 * i)
          else [] }

/-- As the workers call the two parsers. -/
def loadStatsFormat (toClient : Bool) : Format LoadStats where
  generate := reqPushLoadStatsPayload
  parse m size offset := (parseLoadStatsHeader ⟨m, size⟩ offset).bind fun header =>
    parseLoadingStats toClient header m (offset + 12) (sub64 size (offset + 12))

structure LoadRecord.Fits (r : LoadRecord) : Prop where
  sec : r.sec < 2 ^ 32
  nsec : r.nsec < 2 ^ 32

structure LoadStats.Fits (toClient : Bool) (s : LoadStats) : Prop where
  records : ∀ r ∈ s.serverGetLatency ++ s.serverSetLatency, r.Fits
  overloaded : toClient = false → s.overloadedServerSet = []

@[simp] theorem LoadRecord.length_bytes (r : LoadRecord) : r.bytes.length = 14 := by
  simp only [bytes, List.length_append, length_generateAddressPayload, length_beBytes]

theorem readLoadRecord_eq {m : Memory} {ptr : ℕ} {r : LoadRecord} (h : m.Holds ptr r.bytes)
    (hr : r.Fits) : readLoadRecord m ptr = r := by
  simp only [LoadRecord.bytes, Memory.holds_append, List.length_append,
    length_generateAddressPayload, length_beBytes] at h
  rw [readLoadRecord, readNetworkAddr_eq h.1.1, read4Bytes_eq h.1.2 hr.sec, read4Bytes_eq h.2 hr.nsec]

theorem readLoadRecords_eq {m : Memory} {ptr : ℕ} {l : List LoadRecord}
    (h : m.Holds ptr (l.flatMap LoadRecord.bytes)) (hl : ∀ r ∈ l, r.Fits) :
    ((List.range l.length).map fun i => readLoadRecord m (ptr + 14 * i)) = l := by
  rw [Memory.holds_flatMap LoadRecord.length_bytes] at h
  refine List.ext_getElem (by simp) fun i h1 h2 => ?_
  simp only [List.getElem_map, List.getElem_range]
  exact readLoadRecord_eq (h i h2) (hl _ (List.getElem_mem h2))

theorem readNetworkAddrs_eq {m : Memory} {ptr : ℕ} {l : List NetworkAddr}
    (h : m.Holds ptr (l.flatMap generateAddressPayload)) :
    ((List.range l.length).map fun i => readNetworkAddr m (ptr + 6 * i)) = l := by
  rw [Memory.holds_flatMap length_generateAddressPayload] at h
  refine List.ext_getElem (by simp) fun i h1 h2 => ?_
  simp only [List.getElem_map, List.getElem_range]
  exact readNetworkAddr_eq (h i h2)

/-- The sizes are compared as numbers of 32 bits, so the message has to be shorter. -/
theorem loadStatsFormat_roundTrip (toClient : Bool) :
    (loadStatsFormat toClient).RoundTrip (2 ^ 32) (LoadStats.Fits toClient) := by
  rintro ⟨gets, sets, overloaded⟩ m size offset ⟨hrecords, hoverloaded⟩ h hend hsize
  dsimp only at hrecords hoverloaded
  have hlength : ((gets ++ sets).flatMap LoadRecord.bytes).length =
      14 * (gets.length + sets.length) := by
    simp [List.length_flatMap]
    ring
  have hlength' : (overloaded.flatMap generateAddressPayload).length = 6 * overloaded.length := by
    simp [List.length_flatMap, length_generateAddressPayload, Nat.mul_comm]
  simp only [loadStatsFormat, reqPushLoadStatsPayload, List.append_assoc, Memory.holds_append,
    List.length_append, length_beBytes, hlength, hlength', Nat.add_assoc, Nat.reduceAdd] at h hend ⊢
  obtain ⟨h0, h4, h8, hrecordsAt, hoverloadedAt⟩ := h
  have hread := readLoadRecords_eq hrecordsAt hrecords
  have hread' := readNetworkAddrs_eq hoverloadedAt
  rw [List.length_append] at hread
  rw [parseLoadStatsHeader, if_neg (Input.not_rest_lt (by dsimp only; omega) (by dsimp only; omega))]
  simp only [read4Bytes_eq h0 (show gets.length < 2 ^ 32 by omega),
    read4Bytes_eq h4 (show sets.length < 2 ^ 32 by omega),
    read4Bytes_eq h8 (show overloaded.length < 2 ^ 32 by omega), Option.bind_some]
  have hsum : u32 (gets.length + sets.length) = gets.length + sets.length := u32_eq (by omega)
  have hrest : u32 (sub64 size (offset + 12)) = size - (offset + 12) := by
    rw [sub64_eq (by omega) (by omega), u32_eq (by omega)]
  have htotal : u32 ((gets.length + sets.length) * 14 +
      if toClient = true then overloaded.length * 6 else 0) ≤ size - (offset + 12) := by
    split_ifs
    · rw [u32_eq (by omega)]
      omega
    · rw [u32_eq (by omega)]
      omega
  simp only [parseLoadingStats, hsum, hrest, if_neg (Nat.not_lt.mpr htotal), hread,
    List.take_left, List.drop_left]
  rw [← Nat.add_assoc offset] at hread'
  rw [hread']
  cases toClient with
  | true => rfl
  | false => rw [hoverloaded rfl, if_neg Bool.false_ne_true]

end MemEC.Common
