import MemEC.Common.LargeObject

/-!
# UPDATE requests for large objects

The client does not know the size of the value that an UPDATE is for. When the
bytes that the UPDATE reaches make the object large, it sends one request for each
split that they touch. Otherwise it sends one request with the plain key, for
which the server finds the first split of a large object.

An object is large from three bytes behind the end of its first split on, so an
UPDATE that ends in these bytes goes past the split. And the size of a key with
its split offset is a byte.

The requests here are those in the normal flow, where no server is degraded.
-/

namespace MemEC.Client

open MemEC.Lib MemEC.Common LargeObjectUtil

structure UpdateRequest where
  key : List UInt8
  /-- By how many places the data server comes behind that of the key. -/
  serverIndex : ℕ
  valueUpdateOffset : ℕ
  valueUpdateSize : ℕ
  valueUpdate : List UInt8
deriving DecidableEq

variable (cfg : GlobalConfig)

/-- `_offset` and `_size`: the part of an UPDATE that lies in the split which starts at
`splitStart`. -/
def splitRange (splitSize splitStart valueUpdateOffset valueUpdateEnd : ℕ) : ℕ × ℕ :=
  let offset := if splitStart < valueUpdateOffset then sub32 valueUpdateOffset splitStart else 0
  let size := sub32 (sub32 valueUpdateEnd splitStart) offset
  let size := if splitSize < u32 (offset + size) then sub32 splitSize offset else size
  (offset, if splitSize < size then splitSize else size)

/-- The request of the loop in `ClientWorker::handleUpdateRequest` for a split. -/
def splitUpdateRequest (key : List UInt8) (valueUpdateOffset : ℕ) (valueUpdate : List UInt8)
    (splitIndex : ℕ) : UpdateRequest :=
  let valueUpdateEnd := u32 (valueUpdateOffset + valueUpdate.length)
  let isLarge := isLarge cfg key.length valueUpdateEnd
  let splitSize := splitSize cfg key.length valueUpdateEnd
  let splitOffset := getValueOffsetAtSplit cfg key.length valueUpdateEnd splitIndex
  let splitStart := u32 (splitIndex * splitSize)
  let (offset, size) := splitRange splitSize splitStart valueUpdateOffset valueUpdateEnd
  { key := if isLarge then splitKey key splitOffset else key
    serverIndex := if isLarge then (getSplitIndex cfg key.length 0 splitOffset).1 else 0
    valueUpdateOffset := offset
    valueUpdateSize := size
    valueUpdate := (valueUpdate.drop (offset + splitStart - valueUpdateOffset)).take size }

/-- `ClientWorker::handleUpdateRequest`. -/
def handleUpdateRequest (key : List UInt8) (valueUpdateOffset : ℕ) (valueUpdate : List UInt8) :
    List UpdateRequest :=
  let valueUpdateEnd := u32 (valueUpdateOffset + valueUpdate.length)
  let isLarge := isLarge cfg key.length valueUpdateEnd
  let splitStartIndex :=
    if isLarge then (getSplitIndex cfg key.length 0 valueUpdateOffset).1 else 0
  let splitEndIndex :=
    if isLarge then (getSplitIndex cfg key.length 0 (sub32 valueUpdateEnd 1)).1 else 0
  (List.range' splitStartIndex (splitEndIndex + 1 - splitStartIndex)).map
    (splitUpdateRequest cfg key valueUpdateOffset valueUpdate)

variable {cfg} (o : LargeObject cfg)

/-- The first byte of the value that a request changes. -/
def updatePosition (r : UpdateRequest) : ℕ :=
  (o.findSplit r.key).getD 0 * o.splitSize + r.valueUpdateOffset

/-- What a server does to the splits for a request. Behind the end of a split other objects follow,
which are left out here. -/
def applyUpdate (splits : ℕ → List UInt8) (r : UpdateRequest) : ℕ → List UInt8 :=
  match o.findSplit r.key with
  | none => splits
  | some i => Function.update splits i (patch (splits i) r.valueUpdateOffset r.valueUpdate)

/-- What the requests for an UPDATE promise: each finds a split on the server that it is sent to,
lies inside this split and carries the slice of the update that belongs there; together they cover
the update exactly once; and they have the effect of the update on the whole value. -/
structure UpdatesValue (offset : ℕ) (valueUpdate : List UInt8) (requests : List UpdateRequest) :
    Prop where
  located : ∀ r ∈ requests, ∃ i, o.findSplit r.key = some i ∧ r.serverIndex = i ∧
    r.valueUpdateOffset + r.valueUpdateSize ≤ (o.split i).length ∧
    r.valueUpdate = slice valueUpdate (i * o.splitSize + r.valueUpdateOffset - offset)
      (i * o.splitSize + r.valueUpdateOffset + r.valueUpdateSize - offset)
  covers : (requests.flatMap fun r => List.range' (updatePosition o r) r.valueUpdateSize) =
    List.range' offset valueUpdate.length
  applied : ∀ i, requests.foldl (applyUpdate o) o.split i =
    slice (patch o.value offset valueUpdate) (i * o.splitSize) ((i + 1) * o.splitSize)

/-! ## The splits that an UPDATE touches -/

/-- The splits from the first to the last byte of an UPDATE. -/
def touchedSplits (offset size : ℕ) : List ℕ :=
  List.range' (offset / o.splitSize)
    ((offset + size - 1) / o.splitSize + 1 - offset / o.splitSize)

theorem nodup_touchedSplits (offset size : ℕ) : (touchedSplits o offset size).Nodup :=
  List.nodup_range'

/-- These are the splits that overlap with the UPDATE. -/
theorem mem_touchedSplits {offset size : ℕ} (hpos : 0 < size) {i : ℕ} :
    i ∈ touchedSplits o offset size ↔
      offset < (i + 1) * o.splitSize ∧ i * o.splitSize < offset + size := by
  have hS := o.splitSize_pos
  have hmono : offset / o.splitSize ≤ (offset + size - 1) / o.splitSize :=
    Nat.div_le_div_right (by omega)
  have hfirst : offset / o.splitSize ≤ i ↔ offset < (i + 1) * o.splitSize := by
    rw [← Nat.lt_succ_iff]
    exact Nat.div_lt_iff_lt_mul hS
  have hlast : i ≤ (offset + size - 1) / o.splitSize ↔ i * o.splitSize < offset + size := by
    rw [Nat.le_div_iff_mul_le hS]
    omega
  rw [touchedSplits, List.mem_range'_1, ← hfirst, ← hlast]
  omega

/-- Cut at the ends of the splits, an UPDATE is covered exactly once. -/
theorem flatMap_touchedSplits {offset size : ℕ} (hpos : 0 < size) :
    ((touchedSplits o offset size).flatMap fun i =>
      List.range' (max offset (i * o.splitSize))
        (min (offset + size) ((i + 1) * o.splitSize) - max offset (i * o.splitSize))) =
      List.range' offset size := by
  have hS := o.splitSize_pos
  let cut : ℕ → ℕ := fun i => min size (i * o.splitSize - offset)
  have hmono : Monotone cut := by
    intro i j hij
    have hmul := Nat.mul_le_mul_right o.splitSize hij
    dsimp only [cut]
    omega
  have hpart : ∀ i ∈ touchedSplits o offset size,
      List.range' (max offset (i * o.splitSize))
        (min (offset + size) ((i + 1) * o.splitSize) - max offset (i * o.splitSize)) =
      slice (List.range' offset size) (cut i) (cut (i + 1)) := by
    intro i hi
    obtain ⟨hstart, hend⟩ := (mem_touchedSplits o hpos).mp hi
    rw [slice_range' offset size _ _ (Nat.min_le_left _ _)]
    dsimp only [cut]
    congr 1
    · omega
    · omega
  have hfirst : cut (offset / o.splitSize) = 0 := by
    have := Nat.div_mul_le_self offset o.splitSize
    dsimp only [cut]
    omega
  have hlast : cut ((offset + size - 1) / o.splitSize + 1) = size := by
    have : offset + size - 1 < ((offset + size - 1) / o.splitSize + 1) * o.splitSize :=
      (Nat.div_lt_iff_lt_mul hS).mp (Nat.lt_succ_self _)
    dsimp only [cut]
    omega
  have hcount : offset / o.splitSize + ((offset + size - 1) / o.splitSize + 1 -
      offset / o.splitSize) = (offset + size - 1) / o.splitSize + 1 := by
    have : offset / o.splitSize ≤ (offset + size - 1) / o.splitSize :=
      Nat.div_le_div_right (by omega)
    omega
  rw [List.flatMap_congr hpart, touchedSplits, flatMap_slice hmono, hcount, hfirst, hlast]
  simpa using slice_length (List.range' offset size)

/-! ## The requests -/

theorem splitRange_eq {splitSize splitStart offset valueUpdateEnd : ℕ}
    (hstart : splitStart < valueUpdateEnd) (hoffset : offset < splitStart + splitSize)
    (hle : offset ≤ valueUpdateEnd) (hend : valueUpdateEnd < 2 ^ 32) (hsize : splitSize < 2 ^ 32) :
    splitRange splitSize splitStart offset valueUpdateEnd =
      (max offset splitStart - splitStart,
        min valueUpdateEnd (splitStart + splitSize) - max offset splitStart) := by
  have hfirst : (if splitStart < offset then sub32 offset splitStart else 0) =
      max offset splitStart - splitStart := by
    split_ifs with hlt
    · rw [sub32_eq (by omega) (by omega)]
      omega
    · omega
  have hrest : sub32 (sub32 valueUpdateEnd splitStart) (max offset splitStart - splitStart) =
      valueUpdateEnd - max offset splitStart := by
    rw [sub32_eq (a := valueUpdateEnd) (by omega) (by omega), sub32_eq (by omega) (by omega)]
    omega
  unfold splitRange
  dsimp only
  rw [hfirst, hrest, u32_eq (by omega), sub32_eq (a := splitSize) (by omega) (by omega)]
  congr 1
  split_ifs <;> omega

section

variable {o} {offset : ℕ} {valueUpdate : List UInt8}

/-- An UPDATE that ends in front of the threshold: one request, with the plain key. -/
theorem handleUpdateRequest_of_small (hpos : 0 < valueUpdate.length)
    (hend : offset + valueUpdate.length ≤ o.splitSize + 3)
    (hvalue : offset + valueUpdate.length ≤ o.value.length) :
    handleUpdateRequest cfg o.key offset valueUpdate =
      [⟨o.key, 0, offset, valueUpdate.length, valueUpdate⟩] := by
  have hv := o.length_value
  have hsum : u32 (offset + valueUpdate.length) = offset + valueUpdate.length := u32_eq (by omega)
  have hsmall : isLarge cfg o.key.length (offset + valueUpdate.length) = false := by
    rw [Bool.eq_false_iff, ne_eq, o.isLarge_iff (by omega)]
    omega
  have hsplit : splitSize cfg o.key.length (offset + valueUpdate.length) =
      offset + valueUpdate.length := by
    unfold splitSize
    rw [hsmall, if_neg Bool.false_ne_true]
  have hrange : splitRange (offset + valueUpdate.length) 0 offset (offset + valueUpdate.length) =
      (offset, valueUpdate.length) := by
    rw [splitRange_eq (by omega) (by omega) (by omega) (by omega) (by omega)]
    congr 1 <;> omega
  have hzero : u32 (0 * (offset + valueUpdate.length)) = 0 := by simp [u32]
  have htake : (valueUpdate.drop (offset + 0 - offset)).take valueUpdate.length = valueUpdate := by
    simp
  unfold handleUpdateRequest
  simp only [hsum, hsmall, Bool.false_eq_true, if_false, Nat.zero_add, Nat.sub_zero,
    List.range'_one, List.map_cons, List.map_nil]
  unfold splitUpdateRequest
  simp only [hsum, hsmall, hsplit, hzero, hrange, htake, Bool.false_eq_true, if_false]

/-- The request for a split that an UPDATE touches. -/
theorem splitUpdateRequest_of_large (hlarge : o.splitSize + 3 < offset + valueUpdate.length)
    (hvalue : offset + valueUpdate.length ≤ o.value.length) {i : ℕ}
    (hstart : offset < (i + 1) * o.splitSize)
    (hend : i * o.splitSize < offset + valueUpdate.length) :
    splitUpdateRequest cfg o.key offset valueUpdate i =
      { key := splitKey o.key (i * o.splitSize)
        serverIndex := i
        valueUpdateOffset := max offset (i * o.splitSize) - i * o.splitSize
        valueUpdateSize := min (offset + valueUpdate.length) ((i + 1) * o.splitSize) -
          max offset (i * o.splitSize)
        valueUpdate := slice valueUpdate (max offset (i * o.splitSize) - offset)
          (min (offset + valueUpdate.length) ((i + 1) * o.splitSize) - offset) } := by
  have hv := o.length_value
  have hsum : u32 (offset + valueUpdate.length) = offset + valueUpdate.length := u32_eq (by omega)
  have hl : isLarge cfg o.key.length (offset + valueUpdate.length) = true :=
    (o.isLarge_iff (by omega)).mpr hlarge
  have hsize := o.splitSize_eq hl
  rw [Nat.add_mul, Nat.one_mul] at hstart ⊢
  have hbase : u32 (i * o.splitSize) = i * o.splitSize := u32_eq (by omega)
  have hoffset : getValueOffsetAtSplit cfg o.key.length (offset + valueUpdate.length) i =
      i * o.splitSize := by
    unfold getValueOffsetAtSplit
    rw [if_pos hl, hsize, hbase]
  have hserver : getSplitIndex cfg o.key.length 0 (i * o.splitSize) = (i, true) := by
    rw [o.getSplitIndex_eq (by omega), Nat.mul_div_cancel i o.splitSize_pos]
  have hrange : splitRange o.splitSize (i * o.splitSize) offset (offset + valueUpdate.length) =
      (max offset (i * o.splitSize) - i * o.splitSize,
        min (offset + valueUpdate.length) (i * o.splitSize + o.splitSize) -
          max offset (i * o.splitSize)) :=
    splitRange_eq hend hstart (by omega) (by omega) (by omega)
  have hdrop : max offset (i * o.splitSize) - i * o.splitSize + i * o.splitSize - offset =
      max offset (i * o.splitSize) - offset := by
    omega
  unfold splitUpdateRequest slice
  simp only [hsum, hl, hsize, hoffset, hbase, hserver, hrange, hdrop, if_true]
  congr 2
  omega

/-- An UPDATE that ends behind the threshold: a request for each split that it touches. -/
theorem handleUpdateRequest_of_large (hpos : 0 < valueUpdate.length)
    (hlarge : o.splitSize + 3 < offset + valueUpdate.length)
    (hvalue : offset + valueUpdate.length ≤ o.value.length) :
    handleUpdateRequest cfg o.key offset valueUpdate =
      (touchedSplits o offset valueUpdate.length).map
        (splitUpdateRequest cfg o.key offset valueUpdate) := by
  have hv := o.length_value
  have hsum : u32 (offset + valueUpdate.length) = offset + valueUpdate.length := u32_eq (by omega)
  have hl : isLarge cfg o.key.length (offset + valueUpdate.length) = true :=
    (o.isLarge_iff (by omega)).mpr hlarge
  have hlast : sub32 (offset + valueUpdate.length) 1 = offset + valueUpdate.length - 1 :=
    sub32_eq (by omega) (by omega)
  unfold handleUpdateRequest touchedSplits
  simp only [hsum, hl, hlast, if_true]
  rw [o.getSplitIndex_eq (by omega), o.getSplitIndex_eq (by omega)]

/-! ## What the requests do -/

theorem updatesValue_of_small (hpos : 0 < valueUpdate.length)
    (hend : offset + valueUpdate.length ≤ o.splitSize) :
    UpdatesValue o offset valueUpdate (handleUpdateRequest cfg o.key offset valueUpdate) := by
  have hV := o.splitSize_add_lt
  rw [handleUpdateRequest_of_small hpos (by omega) (by omega)]
  have hfound := o.findSplit_key
  constructor
  · intro r hr
    rw [List.mem_singleton.mp hr]
    refine ⟨0, hfound, rfl, ?_, ?_⟩
    · rw [o.length_split]
      dsimp only
      omega
    · dsimp only
      rw [Nat.zero_mul, Nat.zero_add, Nat.sub_self, Nat.add_sub_cancel_left, slice_length]
  · simp [updatePosition, hfound]
  · intro i
    simp only [List.foldl_cons, List.foldl_nil, applyUpdate, hfound]
    by_cases hi : i = 0
    · subst hi
      rw [Function.update_self, slice_patch o.value (by omega)]
      have hmin : min (offset + valueUpdate.length) ((0 + 1) * o.splitSize) - offset =
          valueUpdate.length := by
        omega
      rw [Nat.zero_mul, Nat.max_eq_left (Nat.zero_le _), hmin, Nat.sub_self, slice_length]
      simp [LargeObject.split]
    · have hle : o.splitSize ≤ i * o.splitSize := Nat.le_mul_of_pos_left _ (Nat.pos_of_ne_zero hi)
      rw [Function.update_of_ne hi, slice_patch_of_disjoint o.value (by omega) (by omega)]
      rfl

theorem updatesValue_of_large (hpos : 0 < valueUpdate.length)
    (hlarge : o.splitSize + 3 < offset + valueUpdate.length)
    (hvalue : offset + valueUpdate.length ≤ o.value.length) (hkey : 0 < o.key.length)
    (hle : o.key.length ≤ 252) :
    UpdatesValue o offset valueUpdate (handleUpdateRequest cfg o.key offset valueUpdate) := by
  have hfound : ∀ i ∈ touchedSplits o offset valueUpdate.length,
      o.findSplit (splitKey o.key (i * o.splitSize)) = some i := by
    intro i hi
    have hlt := ((mem_touchedSplits o hpos).mp hi).2
    have hindex : i < o.numOfSplit := by
      rw [← Nat.mul_div_cancel i o.splitSize_pos]
      exact o.lt_numOfSplit (by omega)
    exact o.findSplit_splitKey hindex hkey hle
  have hrequest : ∀ i ∈ touchedSplits o offset valueUpdate.length, _ := fun i hi =>
    splitUpdateRequest_of_large hlarge hvalue ((mem_touchedSplits o hpos).mp hi).1
      ((mem_touchedSplits o hpos).mp hi).2
  rw [handleUpdateRequest_of_large hpos hlarge hvalue]
  constructor
  · intro r hr
    obtain ⟨i, hi, rfl⟩ := List.mem_map.mp hr
    obtain ⟨hstart, hend⟩ := (mem_touchedSplits o hpos).mp hi
    have hnext : (i + 1) * o.splitSize = i * o.splitSize + o.splitSize := Nat.succ_mul _ _
    rw [hrequest i hi]
    refine ⟨i, hfound i hi, rfl, ?_, ?_⟩
    · rw [o.length_split]
      dsimp only
      omega
    · dsimp only
      congr 1
      · omega
      · omega
  · have hposition : ∀ i ∈ touchedSplits o offset valueUpdate.length,
        List.range' (updatePosition o (splitUpdateRequest cfg o.key offset valueUpdate i))
          (splitUpdateRequest cfg o.key offset valueUpdate i).valueUpdateSize =
        List.range' (max offset (i * o.splitSize))
          (min (offset + valueUpdate.length) ((i + 1) * o.splitSize) -
            max offset (i * o.splitSize)) := by
      intro i hi
      rw [hrequest i hi]
      unfold updatePosition
      dsimp only
      rw [hfound i hi, Option.getD_some, Nat.add_sub_cancel' (Nat.le_max_right _ _)]
    rw [List.flatMap_map, List.flatMap_congr hposition]
    exact flatMap_touchedSplits o hpos
  · intro i
    let change : ℕ → List UInt8 → List UInt8 := fun j bs =>
      patch bs (max offset (j * o.splitSize) - j * o.splitSize)
        (slice valueUpdate (max offset (j * o.splitSize) - offset)
          (min (offset + valueUpdate.length) ((j + 1) * o.splitSize) - offset))
    have happly : ∀ splits, ∀ j ∈ touchedSplits o offset valueUpdate.length,
        applyUpdate o splits (splitUpdateRequest cfg o.key offset valueUpdate j) =
          Function.update splits j (change j (splits j)) := by
      intro splits j hj
      rw [hrequest j hj]
      unfold applyUpdate
      dsimp only
      rw [hfound j hj]
    rw [List.foldl_map, List.foldl_ext _ _ _ happly,
      foldl_update change (nodup_touchedSplits o _ _)]
    split_ifs with hi
    · exact (slice_patch o.value hvalue).symm
    · rw [mem_touchedSplits o hpos] at hi
      exact (slice_patch_of_disjoint o.value hvalue (by omega)).symm

variable (o)

/-- For every large object and every UPDATE of some of its bytes: the requests do what they promise
exactly when the UPDATE ends in the first split, or when it ends behind the threshold from which on
objects are large and the key with a split offset has a size that fits into a byte. -/
theorem updatesValue_iff (hpos : 0 < valueUpdate.length)
    (hvalue : offset + valueUpdate.length ≤ o.value.length) :
    UpdatesValue o offset valueUpdate (handleUpdateRequest cfg o.key offset valueUpdate) ↔
      offset + valueUpdate.length ≤ o.splitSize ∨
      o.splitSize + 3 < offset + valueUpdate.length ∧ 0 < o.key.length ∧ o.key.length ≤ 252 := by
  constructor
  · intro h
    by_cases hlarge : o.splitSize + 3 < offset + valueUpdate.length
    · right
      refine ⟨hlarge, ?_⟩
      -- The request for the first split that is touched finds no split when the key does not fit.
      have hfirst : offset / o.splitSize ∈ touchedSplits o offset valueUpdate.length := by
        rw [mem_touchedSplits o hpos]
        have hle := Nat.div_mul_le_self offset o.splitSize
        have hlt : offset < (offset / o.splitSize + 1) * o.splitSize :=
          (Nat.div_lt_iff_lt_mul o.splitSize_pos).mp (Nat.lt_succ_self _)
        exact ⟨hlt, by omega⟩
      obtain ⟨hstart, hend⟩ := (mem_touchedSplits o hpos).mp hfirst
      have hmem := List.mem_map_of_mem (f := splitUpdateRequest cfg o.key offset valueUpdate) hfirst
      rw [← handleUpdateRequest_of_large hpos hlarge hvalue] at hmem
      obtain ⟨i, hfound, -⟩ := h.located _ hmem
      rw [splitUpdateRequest_of_large hlarge hvalue hstart hend] at hfound
      by_contra hkey
      have hlength := o.length_key_le
      have hnone : o.findSplit (splitKey o.key (offset / o.splitSize * o.splitSize)) = none := by
        by_cases hzero : o.key.length = 0
        · apply o.findSplit_eq_none
          · rw [splitKey_eq (by omega), List.length_append, length_beBytes]
            omega
          · rw [splitKey_eq (by omega), List.length_append, length_beBytes]
            omega
        · have hlt := length_splitKey_lt (by omega) hlength (offset / o.splitSize * o.splitSize)
          apply o.findSplit_eq_none
          · omega
          · omega
      exact absurd (hnone.symm.trans hfound) (by simp)
    · left
      rw [handleUpdateRequest_of_small hpos (by omega) hvalue] at h
      obtain ⟨i, hfound, -, hinside, -⟩ := h.located _ List.mem_cons_self
      obtain rfl : 0 = i := Option.some.inj (o.findSplit_key.symm.trans hfound)
      rw [o.length_split] at hinside
      dsimp only at hinside
      omega
  · rintro (hend | ⟨hlarge, hkey, hle⟩)
    · exact updatesValue_of_small hpos hend
    · exact updatesValue_of_large hpos hlarge hvalue hkey hle

end

/-- A value of 24 bytes under a key of 8 bytes, in chunks of 32 bytes: splits of 17 and 7 bytes. -/
def sampleLarge : LargeObject GlobalConfig.smallest where
  key := List.replicate 8 1
  value := List.replicate 24 0
  length_key := by decide
  large := by decide
  length_value := by decide
  room := by decide

/-- An UPDATE across the boundary of the splits. -/
theorem updatesValue_iff_sample :
    UpdatesValue sampleLarge 16 [1, 2, 3, 4, 5]
      (handleUpdateRequest GlobalConfig.smallest sampleLarge.key 16 [1, 2, 3, 4, 5]) :=
  (updatesValue_iff sampleLarge (by decide) (by decide)).mpr (by decide)

/-- An UPDATE that ends one byte behind the first split goes past it. -/
theorem not_updatesValue_of_threshold :
    ¬ UpdatesValue sampleLarge 16 [1, 2]
      (handleUpdateRequest GlobalConfig.smallest sampleLarge.key 16 [1, 2]) := by
  intro h
  have hrequest : handleUpdateRequest GlobalConfig.smallest sampleLarge.key 16 [1, 2] =
      [⟨sampleLarge.key, 0, 16, 2, [1, 2]⟩] :=
    handleUpdateRequest_of_small (by decide) (by decide) (by decide)
  rw [hrequest] at h
  obtain ⟨i, hfound, -, hinside, -⟩ := h.located _ List.mem_cons_self
  obtain rfl : 0 = i := Option.some.inj (sampleLarge.findSplit_key.symm.trans hfound)
  have hlength : (sampleLarge.split 0).length = 17 := by decide
  dsimp only [List.length_cons, List.length_nil] at hinside
  omega

end MemEC.Client
