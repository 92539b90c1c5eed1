import MemEC.Common.ChunkLayout

/-!
# Chunks on their way

A chunk is sent without the zeros at both ends of its used part, and the receiver
fills a buffer with zeros around what arrives. The used part of a data chunk is
what its headers say, which the chunk itself does not bound.
-/

namespace MemEC.Common

open MemEC.Lib KeyValue

variable (cfg : GlobalConfig)

namespace ChunkUtil

/-- The first loop of `getData`: up to a byte that is not zero. -/
def firstNonZero (m : Memory) (n : ℕ) : ℕ := ((List.range n).find? fun i => m i ≠ 0).getD n

/-- The second loop of `getData`: down to a byte that is not zero, or to `offset`. -/
def lastNonZero (m : Memory) (offset : ℕ) : ℕ → ℕ
  | 0 => 0
  | size + 1 =>
    if offset < size + 1 then
      if m (size + 1) ≠ 0 then size + 1 else lastNonZero m offset size
    else size + 1

/-- What `getData` returns: the pointer stands for the `size` bytes that it refers to. -/
structure Trimmed where
  offset : ℕ
  size : ℕ
  data : List UInt8

/-- `ChunkUtil::getData( chunk, offset, size )`. -/
def getData (dataChunkCount : ℕ) (chunk : Chunk) : Trimmed :=
  let chunkSize := getSize cfg dataChunkCount chunk
  if 0 < chunkSize then
    let offset := firstNonZero chunk.data chunkSize
    let size := sub32 (lastNonZero chunk.data offset (chunkSize - 1) + 1) offset
    ⟨offset, size, chunk.data.read offset size⟩
  else ⟨0, 0, []⟩

/-- `ChunkUtil::load`. -/
def load (m : Memory) (offset : ℕ) (src : List UInt8) (n : ℕ) : Memory :=
  let m := if 0 < offset then m.fill 0 offset 0 else m
  let m := m.write offset (src.take n)
  if u32 (offset + n) < cfg.chunkSize then
    m.fill (offset + n) (sub32 (sub32 cfg.chunkSize offset) n) 0
  else m

/-! ## Trimming -/

theorem firstNonZero_le (m : Memory) (n : ℕ) : firstNonZero m n ≤ n := by
  unfold firstNonZero
  cases h : (List.range n).find? fun i => m i ≠ 0 with
  | none => exact le_rfl
  | some i => exact (List.mem_range.mp (List.mem_of_find?_eq_some h)).le

theorem eq_zero_of_lt_firstNonZero {m : Memory} {n i : ℕ} (h : i < firstNonZero m n) : m i = 0 := by
  unfold firstNonZero at h
  cases hfind : (List.range n).find? fun i => m i ≠ 0 with
  | none =>
    rw [hfind, Option.getD_none] at h
    simpa using List.find?_eq_none.mp hfind i (List.mem_range.mpr h)
  | some j =>
    rw [hfind, Option.getD_some] at h
    obtain ⟨-, k, hk, hget, hbefore⟩ := List.find?_eq_some_iff_getElem.mp hfind
    rw [List.getElem_range] at hget
    have hi := hbefore i (by omega)
    rw [List.getElem_range] at hi
    simpa using hi

theorem firstNonZero_ne_zero {m : Memory} {n : ℕ} (h : firstNonZero m n < n) :
    m (firstNonZero m n) ≠ 0 := by
  unfold firstNonZero at h ⊢
  cases hfind : (List.range n).find? fun i => m i ≠ 0 with
  | none =>
    rw [hfind, Option.getD_none] at h
    omega
  | some j => simpa using List.find?_some hfind

variable {cfg} {m : Memory} {offset size i : ℕ}

theorem lastNonZero_le : lastNonZero m offset size ≤ size := by
  induction size with
  | zero => exact le_rfl
  | succ size ih =>
    unfold lastNonZero
    split_ifs <;> omega

theorem le_lastNonZero (h : offset ≤ size) : offset ≤ lastNonZero m offset size := by
  induction size with
  | zero => exact h
  | succ size ih =>
    unfold lastNonZero
    split_ifs <;> omega

theorem eq_zero_of_lastNonZero_lt (h : lastNonZero m offset size < i) (hi : i ≤ size) :
    m i = 0 := by
  induction size with
  | zero => omega
  | succ size ih =>
    unfold lastNonZero at h
    split_ifs at h with hlt hzero
    · omega
    · rcases Nat.of_le_succ hi with hle | rfl
      · exact ih h hle
      · exact not_not.mp hzero
    · omega

/-- The second loop ends at a byte that is not zero, if the first one did. -/
theorem lastNonZero_ne_zero (hle : offset ≤ size) (h : m offset ≠ 0) :
    m (lastNonZero m offset size) ≠ 0 := by
  induction size with
  | zero =>
    obtain rfl := Nat.le_zero.mp hle
    exact h
  | succ size ih =>
    unfold lastNonZero
    split_ifs with hlt hzero
    · exact hzero
    · exact ih (by omega)
    · obtain rfl : offset = size + 1 := by omega
      exact h

/-! ## Sizes -/

theorem scan_invariant {α : Type} {visit : α → ℕ → ℕ → α} {P : α → Prop} {m : Memory} {acc : α}
    (h : P acc) (hvisit : ∀ acc ptr tmp, P (visit acc ptr tmp)) (fuel ptr : ℕ) :
    P (scan cfg visit m fuel ptr acc) := by
  induction fuel generalizing ptr acc with
  | zero => exact h
  | succ fuel ih =>
    unfold scan
    dsimp only
    split_ifs
    · exact h
    · exact ih (hvisit _ _ _) _
    · exact h

theorem dataSize_lt (m : Memory) : dataSize cfg m < 2 ^ 32 :=
  scan_invariant (P := fun n => n < 2 ^ 32) (by norm_num)
    (fun n _ tmp => Nat.mod_lt (n + tmp) (by norm_num)) cfg.chunkSize 0

theorem getSize_lt (dataChunkCount : ℕ) (chunk : Chunk) :
    getSize cfg dataChunkCount chunk < 2 ^ 32 := by
  have hc := cfg.chunkSize_le
  unfold getSize
  split_ifs
  · omega
  · exact dataSize_lt chunk.data

/-- A data chunk that starts with a header of zeros is empty. -/
theorem dataSize_of_zero (h : ∀ i < 4, m i = 0) : dataSize cfg m = 0 :=
  scan_of_ends (scanEnds_of_zero fun i _ hi => h i hi)

theorem getSize_of_isParity {dataChunkCount : ℕ} {chunk : Chunk}
    (h : isParity dataChunkCount chunk = true) : getSize cfg dataChunkCount chunk = cfg.chunkSize :=
  if_pos h

/-- What the two loops of `getData` find in a chunk that is not empty: the bytes that are not zero
stand between `offset` and `stop`. -/
structure TrimmedTo (m : Memory) (n offset stop : ℕ) : Prop where
  offset_le : offset ≤ stop
  stop_le : stop ≤ n
  before : ∀ i < offset, m i = 0
  behind : ∀ i, stop ≤ i → i < n → m i = 0
  last : (∀ i < n, m i = 0) ∨ ∃ i, stop = i + 1 ∧ m i ≠ 0

theorem getData_trimmedTo {dataChunkCount : ℕ} {chunk : Chunk}
    (hpos : 0 < getSize cfg dataChunkCount chunk) : ∃ offset stop,
      getData cfg dataChunkCount chunk =
        ⟨offset, stop - offset, chunk.data.read offset (stop - offset)⟩ ∧
      TrimmedTo chunk.data (getSize cfg dataChunkCount chunk) offset stop := by
  have hlt : getSize cfg dataChunkCount chunk < 2 ^ 32 := getSize_lt dataChunkCount chunk
  unfold getData
  dsimp only
  rw [if_pos hpos]
  generalize getSize cfg dataChunkCount chunk = n at hpos hlt
  have hle := firstNonZero_le chunk.data n
  have hbefore : ∀ i < firstNonZero chunk.data n, chunk.data i = 0 :=
    fun i hi => eq_zero_of_lt_firstNonZero hi
  have hfirst : firstNonZero chunk.data n < n → chunk.data (firstNonZero chunk.data n) ≠ 0 :=
    firstNonZero_ne_zero
  generalize firstNonZero chunk.data n = offset at hle hbefore hfirst
  have hstop : lastNonZero chunk.data offset (n - 1) ≤ n - 1 := lastNonZero_le
  have hoffset : offset ≤ lastNonZero chunk.data offset (n - 1) + 1 := by
    rcases hle.lt_or_eq with hlt' | rfl
    · have := le_lastNonZero (m := chunk.data) (show offset ≤ n - 1 by omega)
      omega
    · have hall : lastNonZero chunk.data offset (offset - 1) = offset - 1 := by
        obtain ⟨k, rfl⟩ := Nat.exists_eq_add_one_of_ne_zero hpos.ne'
        rw [Nat.add_sub_cancel]
        cases k with
        | zero => rfl
        | succ k => rw [lastNonZero, if_neg (by omega)]
      omega
  refine ⟨offset, lastNonZero chunk.data offset (n - 1) + 1, ?_, hoffset, by omega, hbefore, ?_, ?_⟩
  · rw [sub32_eq (by omega) hoffset]
  · intro i hi hin
    have hlast : lastNonZero chunk.data offset (n - 1) < i := by omega
    exact eq_zero_of_lastNonZero_lt hlast (by omega)
  · rcases hle.lt_or_eq with hlt' | rfl
    · exact .inr ⟨_, rfl, lastNonZero_ne_zero (by omega) (hfirst hlt')⟩
    · exact .inl hbefore

/-- What `load` leaves in the buffer of a chunk. -/
theorem load_apply {t : Memory} {offset i : ℕ} {src : List UInt8}
    (hfit : offset + src.length ≤ cfg.chunkSize) (hi : i < cfg.chunkSize) :
    load cfg t offset src src.length i = Memory.place offset src i := by
  have hc := cfg.chunkSize_le
  have hrest : sub32 (sub32 cfg.chunkSize offset) src.length =
      cfg.chunkSize - (offset + src.length) := by
    rw [sub32_eq (a := cfg.chunkSize) (by omega) (by omega), sub32_eq (by omega) (by omega)]
    omega
  simp only [load, u32_eq (show offset + src.length < 2 ^ 32 by omega), hrest, List.take_length]
  generalize hw : (if 0 < offset then t.fill 0 offset 0 else t).write offset src = w
  have hbefore : i < offset → w i = 0 := by
    intro hlt
    rw [← hw, Memory.write_apply_out (.inl hlt), if_pos (by omega)]
    simp [Memory.fill, hlt]
  have hin : offset ≤ i → i < offset + src.length → w i = Memory.place offset src i := by
    intro h1 h2
    obtain ⟨j, rfl⟩ := Nat.exists_eq_add_of_le h1
    rw [← hw, Memory.write_apply (by omega), Memory.place_apply (by omega)]
  by_cases h1 : offset + src.length ≤ i
  · rw [if_pos (by omega), Memory.place_apply_out (.inr h1)]
    simp only [Memory.fill]
    rw [if_pos (by omega)]
  · have hw' : (if offset + src.length < cfg.chunkSize then
        w.fill (offset + src.length) (cfg.chunkSize - (offset + src.length)) 0 else w) i = w i := by
      split_ifs
      · simp only [Memory.fill]
        rw [if_neg (by omega)]
      · rfl
    rw [hw']
    by_cases h2 : offset ≤ i
    · exact hin h2 (by omega)
    · rw [hbefore (by omega), Memory.place_apply_out (.inl (by omega))]

/-- What `getData` returns of the chunk fits into a chunk, and `load` makes the same data of it in
any buffer. -/
structure Carried (cfg : GlobalConfig) (dataChunkCount : ℕ) (chunk : Chunk) : Prop where
  fits : (getData cfg dataChunkCount chunk).offset + (getData cfg dataChunkCount chunk).size ≤
    cfg.chunkSize
  same : ∀ (buffer : Memory), ∀ i < cfg.chunkSize,
    load cfg buffer (getData cfg dataChunkCount chunk).offset
      (getData cfg dataChunkCount chunk).data (getData cfg dataChunkCount chunk).size i =
      chunk.data i

/-- A chunk with zeros behind its used part arrives as it was sent, when the used part does not
reach a byte that is not zero behind the chunk. -/
theorem carried_iff (cfg : GlobalConfig) (dataChunkCount : ℕ) (chunk : Chunk)
    (hzero : ∀ i, getSize cfg dataChunkCount chunk ≤ i → i < cfg.chunkSize → chunk.data i = 0) :
    Carried cfg dataChunkCount chunk ↔
      ∀ i, cfg.chunkSize ≤ i → i < getSize cfg dataChunkCount chunk → chunk.data i = 0 := by
  rcases Nat.eq_zero_or_pos (getSize cfg dataChunkCount chunk) with hempty | hpos
  · rw [hempty] at hzero ⊢
    have hdata : getData cfg dataChunkCount chunk = ⟨0, 0, []⟩ := by
      unfold getData
      dsimp only
      rw [hempty, if_neg (lt_irrefl 0)]
    refine iff_of_true ⟨?_, ?_⟩ fun i _ hi => absurd hi (Nat.not_lt_zero i)
    · rw [hdata]
      exact Nat.zero_le _
    · intro buffer i hi
      rw [hdata, hzero i (Nat.zero_le i) hi]
      have hload : load cfg buffer 0 [] 0 i = Memory.place 0 [] i := load_apply (Nat.zero_le _) hi
      exact hload.trans (congrFun (Memory.write_nil 0 0) i)
  · obtain ⟨offset, stop, hdata, h⟩ := getData_trimmedTo hpos
    have hoffset := h.offset_le
    have hstop := h.stop_le
    constructor
    · intro hcarried i hi hn
      have hfits := hcarried.fits
      rw [hdata] at hfits
      exact h.behind i (by simp only at hfits; omega) hn
    · intro hbehind
      have hfits : stop ≤ cfg.chunkSize := by
        by_contra hlt
        rcases h.last with hall | ⟨i, rfl, hne⟩
        · cases hparity : isParity dataChunkCount chunk with
          | true =>
            have hsize : getSize cfg dataChunkCount chunk = cfg.chunkSize :=
              getSize_of_isParity hparity
            omega
          | false =>
            have hsize : getSize cfg dataChunkCount chunk = dataSize cfg chunk.data := by
              unfold getSize
              rw [hparity, if_neg Bool.false_ne_true]
            have hc := cfg.le_chunkSize
            rw [hsize, dataSize_of_zero fun i hi => hall i (by omega)] at hpos
            omega
        · exact hne (hbehind i (by omega) (by omega))
      refine ⟨?_, ?_⟩
      · rw [hdata]
        simp only
        omega
      · intro buffer i hi
        have hlen : offset + (chunk.data.read offset (stop - offset)).length ≤ cfg.chunkSize := by
          rw [Memory.length_read]
          omega
        have hload := load_apply (t := buffer) hlen hi
        rw [Memory.length_read] at hload
        rw [hdata, hload]
        by_cases hin : offset ≤ i ∧ i < stop
        · obtain ⟨j, rfl⟩ := Nat.exists_eq_add_of_le hin.1
          rw [Memory.place_apply (by rw [Memory.length_read]; omega), Memory.getElem_read]
        · rw [Memory.place_apply_out (by rw [Memory.length_read]; omega)]
          by_cases hbefore : i < offset
          · exact (h.before i hbefore).symm
          · by_cases hn : i < getSize cfg dataChunkCount chunk
            · exact (h.behind i (by omega) hn).symm
            · exact (hzero i (by omega) hi).symm

/-- A chunk of 32 bytes in which the second object would need five more. -/
def overrunChunk : Chunk :=
  ⟨0, 0, 0, Memory.place 0 ([1, 0, 0, 0, 107] ++ [1, 0, 0, 27] ++ List.replicate 28 1)⟩

/-- It is sent with the five bytes that follow it. -/
theorem not_carried_of_overrun : ¬∀ (cfg : GlobalConfig) (dataChunkCount : ℕ) (chunk : Chunk),
    (∀ i, getSize cfg dataChunkCount chunk ≤ i → i < cfg.chunkSize → chunk.data i = 0) →
    Carried cfg dataChunkCount chunk := by
  intro h
  have hsize : getSize .smallest 1 overrunChunk = 37 := by decide +kernel
  have hcarried := h .smallest 1 overrunChunk fun i hi hlt => by
    rw [hsize] at hi
    have hc : GlobalConfig.smallest.chunkSize = 32 := rfl
    omega
  exact absurd hcarried.fits (by decide +kernel)

/-- A parity chunk with one byte that is not zero. -/
def oneByteParity : Chunk := ⟨0, 0, 1, Memory.place 20 [1]⟩

theorem carried_of_oneByteParity : Carried .smallest 1 oneByteParity := by
  have hsize : getSize .smallest 1 oneByteParity = 32 := rfl
  refine (carried_iff .smallest 1 oneByteParity fun i hi hlt => ?_).mpr fun i hi hlt => ?_
  · exact absurd hi (by rw [hsize]; exact not_le.mpr hlt)
  · exact absurd hlt (by rw [hsize]; exact not_lt.mpr hi)

end ChunkUtil

end MemEC.Common
