import MemEC.Common.ChunkUtil
import MemEC.Common.LargeObject

/-!
# The sizes of splits and of stored objects

The size of a split is the size of a chunk less three header terms. The
validation of the configuration leaves the split offset out, so the difference
can pass below zero, and the number of splits is then computed with a split size
that no chunk has room for, or that is zero.

The size of a stored object is computed again wherever it is needed: by `dup`
for its allocation, by `getSize`, and by each walk over a chunk. All agree with
what `serialize` writes whenever the split size is not zero.
-/

namespace MemEC.Common

open MemEC.Lib KeyValue LargeObjectUtil

variable (cfg : GlobalConfig) {keySize valueSize splitOffset : ℕ}

namespace LargeObjectUtil

/-- The division of `isLarge` is by zero when the header, the key and the split offset fill a
chunk. -/
theorem numOfSplit_eq_none_iff (hk : keySize ≤ 255) (hv : valueSize < 2 ^ 24) :
    numOfSplit cfg keySize valueSize = none ↔
      cfg.chunkSize < 4 + keySize + valueSize ∧ cfg.chunkSize = keySize + 7 := by
  have hc := cfg.chunkSize_le
  unfold numOfSplit
  rw [← isLarge_iff cfg hk hv]
  by_cases hlarge : isLarge cfg keySize valueSize = true
  · have hzero : splitSize cfg keySize valueSize = 0 ↔ cfg.chunkSize = keySize + 7 := by
      unfold splitSize sub32 u32
      rw [if_pos hlarge]
      omega
    rw [if_pos hlarge]
    dsimp only
    rw [← hzero]
    by_cases h : splitSize cfg keySize valueSize = 0
    · rw [if_pos h]
      exact iff_of_true rfl ⟨hlarge, h⟩
    · rw [if_neg h]
      exact iff_of_false (Option.some_ne_none _) fun hn => h hn.2
  · rw [if_neg hlarge]
    exact iff_of_false (Option.some_ne_none _) fun hn => hlarge hn.1

/-- Where the part of the value in the split at `index` ends. -/
def splitEnd (keySize valueSize index : ℕ) : ℕ :=
  min (getValueOffsetAtSplit cfg keySize valueSize index + splitSize cfg keySize valueSize)
    valueSize

/-- An object is cut into `n` splits. -/
structure Split (keySize valueSize n : ℕ) : Prop where
  /-- The number of splits is computed without a division by zero. -/
  count : numOfSplit cfg keySize valueSize = some n
  /-- The split size has not passed below zero. -/
  exact : isLarge cfg keySize valueSize = true →
    (splitSize cfg keySize valueSize : ℤ) = (cfg.chunkSize : ℤ) - 4 - keySize - 3
  nonempty : ∀ i < n,
    getValueOffsetAtSplit cfg keySize valueSize i < splitEnd cfg keySize valueSize i
  /-- The parts of the value have no gap and do not overlap. -/
  partition : ∀ p < valueSize, ∃! i, i < n ∧
    getValueOffsetAtSplit cfg keySize valueSize i ≤ p ∧ p < splitEnd cfg keySize valueSize i
  /-- Each part fits into a chunk, with what is stored in front of it. -/
  fits : ∀ i < n, 4 + keySize + (if isLarge cfg keySize valueSize then 3 else 0) +
    (splitEnd cfg keySize valueSize i - getValueOffsetAtSplit cfg keySize valueSize i) ≤
      cfg.chunkSize
  index : ∀ i < n, (getSplitIndex cfg keySize valueSize
    (getValueOffsetAtSplit cfg keySize valueSize i)).1 = i

variable {cfg}

/-- An object that fits into a chunk is one split. -/
theorem split_of_fits (hpos : 0 < valueSize) (hfit : 4 + keySize + valueSize ≤ cfg.chunkSize) :
    Split cfg keySize valueSize 1 := by
  have hlarge := isLarge_of_fits cfg hfit
  have hsize : splitSize cfg keySize valueSize = valueSize := by
    unfold splitSize
    rw [hlarge, if_neg Bool.false_ne_true]
  have hoffset : ∀ i, getValueOffsetAtSplit cfg keySize valueSize i = 0 := by
    intro i
    unfold getValueOffsetAtSplit
    rw [hlarge, if_neg Bool.false_ne_true]
  have hend : ∀ i, splitEnd cfg keySize valueSize i = valueSize := by
    intro i
    unfold splitEnd
    rw [hoffset, hsize, Nat.zero_add, Nat.min_self]
  constructor
  · unfold numOfSplit
    rw [hlarge, if_neg Bool.false_ne_true]
  · intro h
    rw [hlarge] at h
    cases h
  · intro i _
    rwa [hoffset, hend]
  · intro p hp
    refine ⟨0, ⟨Nat.one_pos, ?_, ?_⟩, fun i hi => Nat.lt_one_iff.mp hi.1⟩
    · rw [hoffset]
      exact Nat.zero_le p
    · rwa [hend]
  · intro i _
    rw [hlarge, if_neg Bool.false_ne_true, hend, hoffset]
    omega
  · intro i hi
    obtain rfl := Nat.lt_one_iff.mp hi
    unfold getSplitIndex
    dsimp only
    rw [if_neg (by omega : valueSize ≠ 0), hlarge, if_neg Bool.false_ne_true]

/-- An object that does not fit is cut into pieces when a split has room for a part of its value. -/
theorem split_of_room (hk : keySize ≤ 255) (hv : valueSize < 2 ^ 24)
    (hlt : cfg.chunkSize < 4 + keySize + valueSize) (hroom : keySize + 7 < cfg.chunkSize) :
    Split cfg keySize valueSize (pieces valueSize (cfg.chunkSize - (keySize + 7))) := by
  have hlarge := (isLarge_iff cfg hk hv).mpr hlt
  have hsize := splitSize_of_room cfg hlarge hroom.le
  have hpos : 0 < cfg.chunkSize - (keySize + 7) := by omega
  generalize hs : cfg.chunkSize - (keySize + 7) = s at hsize hpos
  have hoffset : ∀ i < pieces valueSize s,
      getValueOffsetAtSplit cfg keySize valueSize i = i * s := by
    intro i hi
    have hi := (lt_pieces_iff hpos).mp hi
    unfold getValueOffsetAtSplit
    rw [if_pos hlarge, hsize, u32_eq (by omega)]
  have hend : ∀ i < pieces valueSize s,
      splitEnd cfg keySize valueSize i = min (i * s + s) valueSize := by
    intro i hi
    unfold splitEnd
    rw [hoffset i hi, hsize]
  constructor
  · unfold numOfSplit
    rw [if_pos hlarge]
    dsimp only
    rw [hsize, if_neg hpos.ne']
    rfl
  · intro _
    rw [hsize]
    omega
  · intro i hi
    rw [hoffset i hi, hend i hi]
    have := (lt_pieces_iff hpos).mp hi
    omega
  · intro p hp
    obtain ⟨i, ⟨hi, hle, hlt⟩, huniq⟩ := existsUnique_piece hpos hp
    refine ⟨i, ⟨hi, ?_, ?_⟩, ?_⟩
    · rwa [hoffset i hi]
    · rwa [hend i hi]
    · rintro j ⟨hj, hle', hlt'⟩
      rw [hoffset j hj] at hle'
      rw [hend j hj] at hlt'
      exact huniq j ⟨hj, hle', hlt'⟩
  · intro i hi
    rw [if_pos hlarge, hoffset i hi, hend i hi]
    omega
  · intro i hi
    rw [hoffset i hi]
    unfold getSplitIndex
    dsimp only
    rw [if_neg (by omega : valueSize ≠ 0), if_pos hlarge, hsize, Nat.mul_div_cancel _ hpos]

/-- The splits of a configured key size are right for the values that are not empty, when these
fit into a chunk or a chunk has room for a split offset and more. -/
theorem split_iff (cfg : GlobalConfig) {valueSize : ℕ} (hv : valueSize < 2 ^ 24) :
    (∃ n, Split cfg cfg.keySize valueSize n) ↔ 0 < valueSize ∧
      (4 + cfg.keySize + valueSize ≤ cfg.chunkSize ∨ cfg.keySize + 7 < cfg.chunkSize) := by
  have hk := cfg.keySize_le
  constructor
  · rintro ⟨n, h⟩
    by_cases hlt : cfg.chunkSize < 4 + cfg.keySize + valueSize
    · have hlarge := (isLarge_iff cfg hk hv).mpr hlt
      have hexact := h.exact hlarge
      have hzero : ¬(cfg.chunkSize < 4 + cfg.keySize + valueSize ∧
          cfg.chunkSize = cfg.keySize + 7) := by
        rw [← numOfSplit_eq_none_iff cfg hk hv, h.count]
        exact Option.some_ne_none n
      have hchunk := cfg.keySize_add_le
      omega
    · have hlarge : isLarge cfg cfg.keySize valueSize = false := isLarge_of_fits cfg (by omega)
      have hcount := h.count
      unfold numOfSplit at hcount
      rw [hlarge, if_neg Bool.false_ne_true, Option.some.injEq] at hcount
      have hne := h.nonempty 0 (by omega)
      unfold splitEnd at hne
      omega
  · rintro ⟨hpos, hfit | hroom⟩
    · exact ⟨1, split_of_fits hpos hfit⟩
    · by_cases hlt : cfg.chunkSize < 4 + cfg.keySize + valueSize
      · exact ⟨_, split_of_room hk hv hlt hroom⟩
      · exact ⟨1, split_of_fits hpos (by omega)⟩

theorem split_of_hundred : (100 : ℕ) < 2 ^ 24 ∧
    ∃ n, Split .smallest GlobalConfig.smallest.keySize 100 n :=
  ⟨by decide, (split_iff .smallest (by decide)).mpr ⟨by decide, .inr (by decide)⟩⟩

/-- Chunks that the header, a key of the configured size and a split offset fill. -/
def fullHeader : GlobalConfig :=
  { GlobalConfig.smallest with
    keySize := 25
    le_keySize := by norm_num
    keySize_le := by norm_num
    keySize_add_le := by decide }

/-- A value of four bytes is then divided by zero. -/
theorem not_split_of_fullHeader : ¬∀ (cfg : GlobalConfig) (valueSize : ℕ), valueSize < 2 ^ 24 →
    ∃ n, Split cfg cfg.keySize valueSize n := by
  intro h
  obtain ⟨n, hn⟩ := h fullHeader 4 (by decide)
  have hnone : numOfSplit fullHeader fullHeader.keySize 4 = none := by decide
  rw [hn.count] at hnone
  cases hnone

end LargeObjectUtil

/-! ## Stored objects -/

/-- The size that `dup` allocates. -/
def KeyValue.dupSize (keySize valueSize splitOffset : ℕ) : ℕ :=
  u32 (keySize + payloadSize cfg keySize valueSize splitOffset +
    (if isLarge cfg keySize valueSize then 3 else 0) + 4)

/-- The size that `getSize`, `getCount` and `next` of `ChunkUtil` compute for the object at `ptr`. -/
def ChunkUtil.objectSize (m : Memory) (ptr : ℕ) : ℕ :=
  let kv := deserialize cfg m ptr
  if isLarge cfg kv.keySize kv.valueSize then
    u32 (4 + 3 + kv.keySize + payloadSize cfg kv.keySize kv.valueSize kv.splitOffset)
  else u32 (4 + kv.keySize + kv.valueSize)

theorem ChunkUtil.objectSize_eq (m : Memory) (ptr : ℕ) : objectSize cfg m ptr = sizeAt cfg m ptr := by
  unfold objectSize sizeAt storedSize
  dsimp only
  split_ifs with h
  · congr 1
    omega
  · rfl

namespace KeyValue

/-- What `serialize` writes. -/
def storedBytes (key value : List UInt8) (valueSize splitOffset : ℕ) : List UInt8 :=
  (UInt8.ofNat key.length :: beBytes 3 valueSize) ++ key ++
    (if isLarge cfg key.length valueSize then beBytes 3 splitOffset else []) ++
    value.take (payloadSize cfg key.length valueSize splitOffset)

/-- After `serialize` has written `bs` at `data`, the object is read back, and all agree on its
size. -/
structure ReadBack (key value : List UInt8) (valueSize splitOffset : ℕ) (bs : List UInt8)
    (m m' : Memory) (data : ℕ) : Prop where
  written : m' = m.write data bs
  read : ∃ ptr, deserialize cfg m' data = ⟨data + 4, key.length, ptr, valueSize, splitOffset⟩ ∧
    m'.Holds (data + 4) key ∧
    m'.Holds ptr (value.take (payloadSize cfg key.length valueSize splitOffset))
  getSize : sizeAt cfg m' data = bs.length
  dup : dupSize cfg key.length valueSize splitOffset = bs.length
  objectSize : ChunkUtil.objectSize cfg m' data = bs.length
  scan : ∀ {α : Type} (visit : α → ℕ → ℕ → α) (fuel : ℕ) (acc : α), data + 4 < cfg.chunkSize →
    ChunkUtil.scan cfg visit m' (fuel + 1) data acc =
      ChunkUtil.scan cfg visit m' fuel (data + bs.length) (visit acc data bs.length)
  next : data + 4 < cfg.chunkSize → ChunkUtil.next cfg m' data =
    some ⟨data + bs.length, data + 4, key.length, isLarge cfg key.length valueSize⟩

/-- The object is read back from wherever it was written. -/
def RoundTrip (key value : List UInt8) (valueSize splitOffset : ℕ) : Prop :=
  numOfSplit cfg key.length valueSize ≠ none ∧ ∃ bs, ∀ m data,
    ReadBack cfg key value valueSize splitOffset bs m
      (serialize cfg m data (some key) key.length (some value) valueSize splitOffset) data

/-- The offset of a split of the value, or that of an object that is stored whole. -/
def IsSplitOffset (keySize valueSize splitOffset : ℕ) : Prop :=
  splitOffset = 0 ∨ (splitSize cfg keySize valueSize ∣ splitOffset ∧ splitOffset < valueSize)

variable {cfg} {key value : List UInt8}

theorem payloadSize_le (hv : valueSize < 2 ^ 24)
    (ho : IsSplitOffset cfg keySize valueSize splitOffset) :
    payloadSize cfg keySize valueSize splitOffset ≤ valueSize := by
  unfold payloadSize
  split_ifs with hlarge hlt
  · rcases ho with rfl | ⟨-, ho⟩
    · unfold sub32 u32
      omega
    · rw [sub32_eq (by omega) ho.le]
      omega
  · -- The sum of the offset and the split size cannot wrap, as a multiple of a large size is zero.
    have hs : splitSize cfg keySize valueSize < 2 ^ 32 := by
      unfold splitSize sub32 u32
      rw [if_pos hlarge]
      omega
    have hsum : splitOffset + splitSize cfg keySize valueSize < 2 ^ 32 := by
      rcases ho with rfl | ⟨hdvd, ho⟩
      · omega
      · rcases Nat.eq_zero_or_pos splitOffset with rfl | hpos
        · omega
        · have := Nat.le_of_dvd hpos hdvd
          omega
    rw [u32_eq hsum] at hlt
    omega
  · exact le_rfl

theorem splitOffset_of_plain (hlarge : isLarge cfg keySize valueSize = false)
    (ho : IsSplitOffset cfg keySize valueSize splitOffset) : splitOffset = 0 := by
  rcases ho with rfl | ⟨hdvd, ho⟩
  · rfl
  · unfold splitSize at hdvd
    rw [hlarge, if_neg Bool.false_ne_true] at hdvd
    exact Nat.eq_zero_of_dvd_of_lt hdvd ho

theorem payloadSize_of_plain (hlarge : isLarge cfg keySize valueSize = false) :
    payloadSize cfg keySize valueSize splitOffset = valueSize := by
  unfold payloadSize
  rw [hlarge, if_neg Bool.false_ne_true]

theorem serialize_eq_write (m : Memory) (data : ℕ) :
    serialize cfg m data (some key) key.length (some value) valueSize splitOffset =
      m.write data (storedBytes cfg key value valueSize splitOffset) := by
  unfold storedBytes serialize setSize copyUnlessNull
  dsimp only
  rw [List.take_length]
  simp only [Memory.write_append, List.length_append, List.length_cons, length_beBytes]
  cases hlarge : isLarge cfg key.length valueSize with
  | true =>
    simp only [if_true, length_beBytes, Nat.reduceAdd, Nat.add_assoc]
  | false =>
    simp [payloadSize_of_plain hlarge, Nat.add_assoc]

theorem length_storedBytes
    (hvalue : payloadSize cfg key.length valueSize splitOffset ≤ value.length) :
    (storedBytes cfg key value valueSize splitOffset).length =
      4 + key.length + (if isLarge cfg key.length valueSize then 3 else 0) +
        payloadSize cfg key.length valueSize splitOffset := by
  unfold storedBytes
  simp only [List.length_append, List.length_cons, length_beBytes, List.length_take,
    Nat.min_eq_left hvalue]
  split_ifs <;> simp

/-- Whatever the split size is, what was written is read back. -/
theorem deserialize_of_holds {m : Memory} {data : ℕ} (hk : key.length ≤ 255)
    (hv : valueSize < 2 ^ 24) (ho : IsSplitOffset cfg key.length valueSize splitOffset)
    (h : m.Holds data (storedBytes cfg key value valueSize splitOffset)) :
    ∃ ptr, deserialize cfg m data = ⟨data + 4, key.length, ptr, valueSize, splitOffset⟩ ∧
      m.Holds (data + 4) key ∧
      m.Holds ptr (value.take (payloadSize cfg key.length valueSize splitOffset)) := by
  unfold storedBytes at h
  rw [Memory.holds_append, Memory.holds_append, Memory.holds_append, Memory.holds_cons] at h
  simp only [List.length_append, List.length_cons, length_beBytes] at h
  obtain ⟨⟨⟨⟨hsize, hvalueSize⟩, hkey⟩, hoffset⟩, hpayload⟩ := h
  have hkeySize : (m data).toNat = key.length := by
    rw [hsize, UInt8.toNat_ofNat']
    omega
  have hvs : m.readBe (data + 1) 3 = valueSize := hvalueSize.readBe hv
  refine ⟨_, ?_, hkey, hpayload⟩
  unfold deserialize
  dsimp only
  rw [hkeySize, hvs]
  cases hlarge : isLarge cfg key.length valueSize with
  | true =>
    have hlt : splitOffset < 256 ^ 3 := by
      rcases ho with rfl | ⟨-, ho⟩ <;> omega
    rw [hlarge, if_pos rfl] at hoffset
    rw [if_pos rfl, if_pos rfl, length_beBytes, ← hoffset.readBe hlt]
    simp only [Nat.reduceAdd, Nat.add_assoc]
  | false =>
    obtain rfl := splitOffset_of_plain hlarge ho
    simp [Nat.add_assoc]

theorem roundTrip_of_numOfSplit (hk : 1 ≤ key.length) (hk' : key.length ≤ 255)
    (hv : valueSize < 2 ^ 24) (ho : IsSplitOffset cfg key.length valueSize splitOffset)
    (hvalue : payloadSize cfg key.length valueSize splitOffset ≤ value.length)
    (h : numOfSplit cfg key.length valueSize ≠ none) :
    RoundTrip cfg key value valueSize splitOffset := by
  have hlen := length_storedBytes hvalue
  have hle := payloadSize_le hv ho
  refine ⟨h, storedBytes cfg key value valueSize splitOffset, fun m data => ?_⟩
  rw [serialize_eq_write]
  have hholds := Memory.holds_write m data (storedBytes cfg key value valueSize splitOffset)
  obtain ⟨ptr, hread, hkey, hpayload⟩ := deserialize_of_holds hk' hv ho hholds
  have hstored : storedSize cfg key.length valueSize splitOffset =
      (storedBytes cfg key value valueSize splitOffset).length := by
    unfold storedSize
    cases hlarge : isLarge cfg key.length valueSize with
    | true =>
      rw [hlen, hlarge, if_pos rfl, if_pos rfl, u32_eq (by omega)]
    | false =>
      have hp : payloadSize cfg key.length valueSize splitOffset = valueSize :=
        payloadSize_of_plain hlarge
      rw [hlen, hlarge, if_neg Bool.false_ne_true, if_neg Bool.false_ne_true, hp,
        u32_eq (by omega)]
      omega
  have hsize : sizeAt cfg (m.write data (storedBytes cfg key value valueSize splitOffset)) data =
      (storedBytes cfg key value valueSize splitOffset).length := by
    unfold sizeAt
    rw [hread]
    exact hstored
  constructor
  · rfl
  · exact ⟨ptr, hread, hkey, hpayload⟩
  · exact hsize
  · unfold dupSize
    rw [hlen]
    cases hlarge : isLarge cfg key.length valueSize with
    | true =>
      rw [if_pos rfl, u32_eq (by omega)]
      omega
    | false =>
      rw [if_neg Bool.false_ne_true, u32_eq (by omega)]
      omega
  · rw [ChunkUtil.objectSize_eq, hsize]
  · intro α visit fuel acc hlt
    rw [ChunkUtil.scan, if_pos hlt]
    simp only [hread]
    rw [if_neg (by omega), hstored]
  · intro hlt
    rw [ChunkUtil.next, if_pos hlt]
    simp only [hread]
    rw [if_neg (by omega), hstored]

/-- An object is read back, with one size for all, unless a split has no room for any part of the
value. -/
theorem roundTrip_iff (cfg : GlobalConfig) {key value : List UInt8} {valueSize splitOffset : ℕ}
    (hk : 1 ≤ key.length) (hk' : key.length ≤ 255) (hv : valueSize < 2 ^ 24)
    (ho : IsSplitOffset cfg key.length valueSize splitOffset)
    (hvalue : payloadSize cfg key.length valueSize splitOffset ≤ value.length) :
    RoundTrip cfg key value valueSize splitOffset ↔
      ¬(cfg.chunkSize < 4 + key.length + valueSize ∧ cfg.chunkSize = key.length + 7) := by
  rw [← numOfSplit_eq_none_iff cfg hk' hv]
  constructor
  · exact fun h => h.1
  · exact fun h => roundTrip_of_numOfSplit hk hk' hv ho hvalue h

/-- The last split of a value of 26 bytes holds five of them. -/
theorem roundTrip_lastSplit : RoundTrip .smallest [107, 101, 121, 49] [118, 119, 120, 121, 122]
    26 21 := by
  have hsplit : IsSplitOffset .smallest 4 26 21 := .inr (by decide)
  have hk : 1 ≤ ([107, 101, 121, 49] : List UInt8).length := by decide
  exact (roundTrip_iff .smallest hk (by decide) (by decide) hsplit (by decide)).mpr (by decide)

/-- A key of 25 bytes and a value of four do not survive in chunks of 32 bytes. -/
theorem not_roundTrip_of_fullHeader : ¬∀ (cfg : GlobalConfig) (key value : List UInt8)
    (valueSize splitOffset : ℕ), 1 ≤ key.length → key.length ≤ 255 → valueSize < 2 ^ 24 →
    IsSplitOffset cfg key.length valueSize splitOffset →
    payloadSize cfg key.length valueSize splitOffset ≤ value.length →
    RoundTrip cfg key value valueSize splitOffset := by
  intro h
  have htrip := h fullHeader (List.replicate 25 107) [118, 118, 118, 118] 4 0 (by decide)
    (by decide) (by decide) (.inl rfl) (by decide)
  exact htrip.1 (by decide)

end KeyValue

end MemEC.Common
