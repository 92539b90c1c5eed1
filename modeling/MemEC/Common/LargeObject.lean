import MemEC.Common.KeyValue
import MemEC.Lib.Slices

/-!
# Large objects and their splits

The value of an object that does not fit into a chunk is cut into splits of one
size. Split `i` is known by the key with the offset of the split behind it, and
lies on the server `i` places after that of the key. A server that is asked for
a key looks for a plain object, for the split that the last three bytes name, and
for the first split of the object.
-/

namespace MemEC.Common

open MemEC.Lib

variable (cfg : GlobalConfig)

namespace LargeObjectUtil

/-- `LargeObjectUtil::getValueOffsetAtSplit`. -/
def getValueOffsetAtSplit (keySize valueSize index : ℕ) : ℕ :=
  if isLarge cfg keySize valueSize then u32 (index * splitSize cfg keySize valueSize) else 0

/-- `LargeObjectUtil::getSplitIndex`, with its `isLarge` result. -/
def getSplitIndex (keySize valueSize offset : ℕ) : ℕ × Bool :=
  let valueSize := if valueSize = 0 then u32 (cfg.chunkSize + offset) else valueSize
  if isLarge cfg keySize valueSize then (offset / splitSize cfg keySize valueSize, true)
  else (0, false)

/-- The `numOfSplitPtr` result of `LargeObjectUtil::isLarge`. It is `none` when the code divides by
zero. -/
def numOfSplit (keySize valueSize : ℕ) : Option ℕ :=
  if isLarge cfg keySize valueSize then
    let splitSize := splitSize cfg keySize valueSize
    if splitSize = 0 then none
    else some (valueSize / splitSize + if valueSize % splitSize = 0 then 0 else 1)
  else some 1

/-- `keySize + SPLIT_OFFSET_SIZE` as a `uint8_t`. -/
def splitKeySize (keySize : ℕ) : ℕ := (keySize + 3) % 2 ^ 8

/-- The key of a request for a split: `splitKeySize` bytes of the buffer that starts with the key,
after the split offset was written in front of the end of these bytes. -/
def splitKey (key : List UInt8) (splitOffset : ℕ) : List UInt8 :=
  let n := splitKeySize key.length
  key.take (n - 3) ++ (beBytes 3 splitOffset).drop (3 - n)

/-- The keys that a server looks up for the key of a request, in this order. -/
def lookupKeys (key : List UInt8) : List Key :=
  [Key.plain key] ++
  (if h : 3 < key.length then
    [⟨key.length - 3, true, key, by rw [Key.extent, if_pos rfl]; omega⟩] else []) ++
  [Key.split key 0]

theorem isLarge_iff {keySize valueSize : ℕ} (hk : keySize ≤ 255) (hv : valueSize < 2 ^ 24) :
    isLarge cfg keySize valueSize = true ↔ cfg.chunkSize < 4 + keySize + valueSize := by
  unfold isLarge
  rw [decide_eq_true_eq, u32_eq (by omega)]

/-- The split size is the difference that it is meant to be when that is not negative. -/
theorem splitSize_of_room {keySize valueSize : ℕ} (h : isLarge cfg keySize valueSize = true)
    (hroom : keySize + 7 ≤ cfg.chunkSize) :
    splitSize cfg keySize valueSize = cfg.chunkSize - (keySize + 7) := by
  have hc := cfg.chunkSize_le
  unfold splitSize sub32 u32
  rw [if_pos h]
  omega

theorem splitKey_eq {key : List UInt8} (h : key.length ≤ 252) (splitOffset : ℕ) :
    splitKey key splitOffset = key ++ beBytes 3 splitOffset := by
  have hn : splitKeySize key.length = key.length + 3 := by
    unfold splitKeySize
    omega
  unfold splitKey
  dsimp only
  rw [hn, Nat.add_sub_cancel, List.take_length, Nat.sub_eq_zero_of_le (by omega), List.drop_zero]

theorem length_splitKey_lt {key : List UInt8} (h : 252 < key.length) (hk : key.length ≤ 255)
    (splitOffset : ℕ) : (splitKey key splitOffset).length < 3 := by
  unfold splitKey splitKeySize
  simp only [List.length_append, List.length_take, List.length_drop, length_beBytes]
  omega

end LargeObjectUtil

open LargeObjectUtil

/-- The key and the value of an object that is stored in splits. -/
structure LargeObject where
  key : List UInt8
  value : List UInt8
  length_key : key.length ≤ cfg.keySize
  large : cfg.chunkSize < 4 + key.length + value.length
  length_value : value.length < 2 ^ 24
  room : key.length + 7 < cfg.chunkSize

namespace LargeObject

variable {cfg} (o : LargeObject cfg)

/-- The size of the splits. -/
def splitSize : ℕ := cfg.chunkSize - (o.key.length + 7)

def numOfSplit : ℕ := (o.value.length + o.splitSize - 1) / o.splitSize

/-- The part of the value in split `i`. -/
def split (i : ℕ) : List UInt8 := slice o.value (i * o.splitSize) ((i + 1) * o.splitSize)

/-- The split that a server finds for the key of a request. -/
def findSplit (key : List UInt8) : Option ℕ :=
  (lookupKeys key).findSome? fun k =>
    (List.range o.numOfSplit).find? fun i => k = Key.split o.key (i * o.splitSize)

theorem splitSize_pos : 0 < o.splitSize := by
  have := o.room
  unfold splitSize
  omega

theorem length_key_le : o.key.length ≤ 255 := o.length_key.trans cfg.keySize_le

theorem splitSize_add_lt : o.splitSize + 3 < o.value.length := by
  have := o.large
  have := o.room
  unfold splitSize
  omega

theorem isLarge_iff {n : ℕ} (h : n < 2 ^ 24) :
    isLarge cfg o.key.length n = true ↔ o.splitSize + 3 < n := by
  have hr := o.room
  rw [LargeObjectUtil.isLarge_iff cfg o.length_key_le h]
  unfold splitSize
  omega

theorem splitSize_eq {n : ℕ} (h : isLarge cfg o.key.length n = true) :
    LargeObjectUtil.splitSize cfg o.key.length n = o.splitSize :=
  splitSize_of_room cfg h o.room.le

/-- The index of a split does not depend on the size of the value. -/
theorem getSplitIndex_eq {offset : ℕ} (h : offset < 2 ^ 24) :
    getSplitIndex cfg o.key.length 0 offset = (offset / o.splitSize, true) := by
  have hr := o.room
  have hc := cfg.chunkSize_le
  have hk := o.length_key_le
  have hsum : u32 (cfg.chunkSize + offset) = cfg.chunkSize + offset := u32_eq (by omega)
  have hlarge : isLarge cfg o.key.length (cfg.chunkSize + offset) = true := by
    unfold isLarge
    rw [decide_eq_true_eq, u32_eq (by omega)]
    omega
  unfold getSplitIndex
  dsimp only
  rw [if_pos rfl, hsum, if_pos hlarge, o.splitSize_eq hlarge]

theorem mul_splitSize_lt {i : ℕ} (h : i < o.numOfSplit) : i * o.splitSize < o.value.length := by
  have hpos := o.splitSize_pos
  have hle : (i + 1) * o.splitSize ≤ o.value.length + o.splitSize - 1 :=
    (Nat.le_div_iff_mul_le hpos).mp h
  rw [Nat.add_mul, Nat.one_mul] at hle
  omega

theorem lt_numOfSplit {p : ℕ} (h : p < o.value.length) : p / o.splitSize < o.numOfSplit := by
  have hpos := o.splitSize_pos
  apply (Nat.le_div_iff_mul_le hpos).mpr
  rw [Nat.succ_mul]
  have := Nat.div_mul_le_self p o.splitSize
  omega

theorem length_split (i : ℕ) :
    (o.split i).length = min ((i + 1) * o.splitSize) o.value.length - i * o.splitSize :=
  length_slice _ _ _

theorem splitOffset_inj {i j : ℕ} (hi : i < o.numOfSplit) (hj : j < o.numOfSplit)
    (h : Key.split o.key (i * o.splitSize) = Key.split o.key (j * o.splitSize)) : i = j := by
  have hv := o.length_value
  have hi' := o.mul_splitSize_lt hi
  have hj' := o.mul_splitSize_lt hj
  have hbytes : beBytes 3 (i * o.splitSize) = beBytes 3 (j * o.splitSize) :=
    List.append_cancel_left (congrArg Key.data h)
  have hoffset := congrArg ofBe hbytes
  rw [ofBe_beBytes (by omega), ofBe_beBytes (by omega)] at hoffset
  exact Nat.eq_of_mul_eq_mul_right o.splitSize_pos hoffset

theorem find_splitKey {i : ℕ} (h : i < o.numOfSplit) :
    ((List.range o.numOfSplit).find? fun j =>
      Key.split o.key (i * o.splitSize) = Key.split o.key (j * o.splitSize)) = some i := by
  rw [List.find?_eq_some_iff_getElem]
  refine ⟨by simp, i, by simpa using h, by simp, ?_⟩
  intro j hj
  have hne : Key.split o.key (i * o.splitSize) ≠ Key.split o.key (j * o.splitSize) := by
    intro heq
    have := o.splitOffset_inj h (hj.trans h) heq
    omega
  simpa using hne

/-- A key of another size or of a plain object is no key of a split. -/
theorem find_none {k : Key} (h : k.isLarge = false ∨ k.size ≠ o.key.length) :
    ((List.range o.numOfSplit).find? fun j => k = Key.split o.key (j * o.splitSize)) = none := by
  rw [List.find?_eq_none]
  intro j _ heq
  rw [decide_eq_true_eq] at heq
  rw [heq] at h
  rcases h with h | h
  · exact absurd h (by simp [Key.split])
  · exact h rfl

/-- The key with the offset of a split finds this split. -/
theorem findSplit_splitKey {i : ℕ} (hi : i < o.numOfSplit) (hpos : 0 < o.key.length)
    (hle : o.key.length ≤ 252) : o.findSplit (splitKey o.key (i * o.splitSize)) = some i := by
  have hlen : 3 < (o.key ++ beBytes 3 (i * o.splitSize)).length := by
    rw [List.length_append, length_beBytes]
    omega
  unfold findSplit lookupKeys
  rw [splitKey_eq hle, dif_pos hlen]
  have hsplit : (⟨(o.key ++ beBytes 3 (i * o.splitSize)).length - 3, true,
      o.key ++ beBytes 3 (i * o.splitSize), by rw [Key.extent, if_pos rfl]; omega⟩ : Key) =
      Key.split o.key (i * o.splitSize) := Key.ext rfl rfl
  simp only [List.cons_append, List.nil_append, List.findSome?_cons]
  rw [o.find_none (.inl rfl), hsplit, o.find_splitKey hi]

/-- The plain key finds the first split. -/
theorem findSplit_key : o.findSplit o.key = some 0 := by
  have hvalue : 0 < o.value.length := (Nat.zero_le _).trans_lt o.splitSize_add_lt
  have hzero : 0 < o.numOfSplit := (Nat.zero_le _).trans_lt (o.lt_numOfSplit hvalue)
  have hlast : ((List.range o.numOfSplit).find? fun j =>
      Key.split o.key 0 = Key.split o.key (j * o.splitSize)) = some 0 := by
    simpa using o.find_splitKey hzero
  unfold findSplit lookupKeys
  simp only [List.cons_append, List.findSome?_cons, List.findSome?_append]
  rw [o.find_none (.inl rfl)]
  split_ifs with hlen
  · simp only [List.findSome?_cons, List.findSome?_nil, hlast]
    rw [o.find_none (.inr _)]
    · rfl
    · dsimp only
      omega
  · simp [hlast]

/-- The key of a request whose size has wrapped around, or that has no bytes but the offset, finds
nothing. -/
theorem findSplit_eq_none {key : List UInt8} (hlen : key.length ≤ 3)
    (hne : key.length ≠ o.key.length) :
    o.findSplit key = none := by
  unfold findSplit lookupKeys
  rw [dif_neg (by omega)]
  simp only [List.singleton_append, List.append_nil, List.findSome?_cons, List.findSome?_nil]
  rw [o.find_none (.inl rfl), o.find_none (.inr hne)]

end LargeObject

end MemEC.Common
