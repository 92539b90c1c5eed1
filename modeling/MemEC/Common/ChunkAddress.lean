import MemEC.Common.ChunkPool

/-!
# The addresses of chunks

The pool lays its chunks one behind the other from its start address on. It
computes the place of a chunk and the end of the region in 32 bits, while the
size of the region itself has 64. Addresses are natural numbers here, and what
a call writes to the chunk is not looked at.
-/

namespace MemEC.Common

/-- The variables of a `ChunkPool`. -/
structure ChunkPoolVars where
  total : ℕ
  count : ℕ
  startAddress : ℕ

/-- The size of a chunk with its identifier. -/
def GlobalConfig.slotSize (cfg : GlobalConfig) : ℕ := 8 + cfg.chunkSize

namespace ChunkPoolVars

variable (cfg : GlobalConfig)

/-- `ChunkPool::init`, with the address that `malloc` returns. -/
def init (capacity : UInt64) (startAddress : ℕ) : ChunkPoolVars :=
  ⟨u32 (capacity.toNat / cfg.slotSize), 0, startAddress⟩

variable (pool : ChunkPoolVars)

/-- The address of the chunk with this index, if it passes the check. -/
def place (index : ℕ) : Option ℕ :=
  let offset := u32 (index * cfg.slotSize)
  if offset + cfg.slotSize ≤ u32 (pool.total * cfg.slotSize) then some (pool.startAddress + offset)
  else none

/-- `ChunkPool::alloc`, with `none` for a null pointer. -/
def alloc : ChunkPoolVars × Option ℕ :=
  if pool.total ≤ pool.count then ({ pool with count := pool.total }, none)
  else ({ pool with count := u32 (pool.count + 1) }, pool.place cfg pool.count)

/-- The chunks that `n` calls of `alloc` return. -/
def allocated (pool : ChunkPoolVars) : ℕ → List ℕ
  | 0 => []
  | n + 1 => (pool.alloc cfg).2.toList ++ allocated (pool.alloc cfg).1 n

/-- `ChunkPool::getChunk`: the chunk and the offset in its data. -/
def getChunk (ptr : ℕ) : ℕ × ℕ :=
  let offset := u32 ((((ptr : ℤ) - pool.startAddress) % 2 ^ 64).toNat % cfg.slotSize)
  (ptr - offset, sub32 offset 8)

/-- `ChunkPool::isInChunkPool`. -/
def isInChunkPool (chunk : ℕ) : Bool :=
  let endAddress := pool.startAddress + u32 (cfg.slotSize * u32 (pool.total + 1))
  pool.startAddress ≤ chunk && chunk < endAddress

/-- What the calls of `alloc` are to return, and where `getChunk` is to come from the data of what
they return. -/
structure Allocates : Prop where
  disjoint : ∀ n, (pool.allocated cfg n).Pairwise fun a b =>
    a + cfg.slotSize ≤ b ∨ b + cfg.slotSize ≤ a
  inside : ∀ n, ∀ a ∈ pool.allocated cfg n, pool.startAddress ≤ a ∧
    a + cfg.slotSize ≤ pool.startAddress + pool.total * cfg.slotSize
  number : ∀ n, (pool.allocated cfg n).length = min n pool.total
  getChunk_eq : ∀ n, ∀ a ∈ pool.allocated cfg n, ∀ offset < cfg.chunkSize,
    pool.getChunk cfg (a + 8 + offset) = (a, offset)

/-- And `isInChunkPool` is to tell the region. -/
structure Lawful : Prop extends pool.Allocates cfg where
  isInChunkPool_iff : ∀ a, pool.isInChunkPool cfg a ↔
    pool.startAddress ≤ a ∧ a < pool.startAddress + pool.total * cfg.slotSize

variable {cfg pool}

theorem slotSize_bounds (cfg : GlobalConfig) : 40 ≤ cfg.slotSize ∧ cfg.slotSize ≤ 16777224 := by
  have hlow := cfg.le_chunkSize
  have hhigh := cfg.chunkSize_le
  unfold GlobalConfig.slotSize
  omega

/-- The calls take one index after the other, and none when all are taken. -/
theorem allocated_eq (htotal : pool.total < 2 ^ 32) (hcount : pool.count ≤ pool.total) (n : ℕ) :
    pool.allocated cfg n =
      (List.range' pool.count (min n (pool.total - pool.count))).filterMap (pool.place cfg) := by
  induction n generalizing pool with
  | zero =>
    rw [Nat.zero_min]
    rfl
  | succ n ih =>
    have hplace : ∀ count, place cfg { pool with count := count } = place cfg pool := fun _ => rfl
    rw [allocated, alloc]
    by_cases hfull : pool.total ≤ pool.count
    · have hrest := @ih { pool with count := pool.total } htotal le_rfl
      rw [if_pos hfull]
      dsimp only
      rw [hrest, Nat.sub_self, Nat.sub_eq_zero_of_le hfull, Nat.min_zero, Nat.min_zero]
      rfl
    · have hnext : u32 (pool.count + 1) = pool.count + 1 := u32_eq (by omega)
      have hrest := @ih { pool with count := pool.count + 1 } htotal (Nat.not_le.mp hfull)
      have hmin : min (n + 1) (pool.total - pool.count) =
          min n (pool.total - (pool.count + 1)) + 1 := by omega
      rw [if_neg hfull, hnext]
      dsimp only
      rw [hrest, hplace, hmin, List.range'_succ, List.filterMap_cons]
      cases pool.place cfg pool.count <;> rfl

/-! ## Pools within 32 bits -/

theorem place_eq (h : pool.total * cfg.slotSize < 2 ^ 32) {index : ℕ} (hlt : index < pool.total) :
    pool.place cfg index = some (pool.startAddress + index * cfg.slotSize) := by
  have hle : (index + 1) * cfg.slotSize ≤ pool.total * cfg.slotSize := Nat.mul_le_mul_right _ hlt
  rw [Nat.succ_mul] at hle
  have hsmall : index * cfg.slotSize < 2 ^ 32 := by omega
  rw [place, u32_eq h, u32_eq hsmall, if_pos hle]

theorem allocated_of_addressable (h : pool.total * cfg.slotSize < 2 ^ 32) (hcount : pool.count = 0)
    (n : ℕ) : pool.allocated cfg n =
      (List.range (min n pool.total)).map fun i => pool.startAddress + i * cfg.slotSize := by
  have hpos := (slotSize_bounds cfg).1
  have htotal : pool.total < 2 ^ 32 := by nlinarith
  rw [allocated_eq htotal (by omega), hcount, Nat.sub_zero, ← List.range_eq_range',
    ← List.filterMap_eq_map]
  refine List.filterMap_congr fun i hi => ?_
  have hlt := List.mem_range.mp hi
  exact place_eq h (by omega)

/-- From all data of a chunk `getChunk` comes back to its start. -/
theorem getChunk_eq_of_slot {i offset : ℕ} (hi : (i + 1) * cfg.slotSize < 2 ^ 32)
    (hoffset : offset < cfg.chunkSize) :
    pool.getChunk cfg (pool.startAddress + i * cfg.slotSize + 8 + offset) =
      (pool.startAddress + i * cfg.slotSize, offset) := by
  have hslot : cfg.slotSize = 8 + cfg.chunkSize := rfl
  have hbound := (slotSize_bounds cfg).2
  rw [Nat.succ_mul] at hi
  have hdiff : (((pool.startAddress + i * cfg.slotSize + 8 + offset : ℕ) : ℤ) -
      pool.startAddress) % 2 ^ 64 = ((8 + offset + cfg.slotSize * i : ℕ) : ℤ) := by
    rw [Int.emod_eq_of_lt]
    · push_cast
      ring
    · push_cast
      omega
    · push_cast
      omega
  have hmod : (8 + offset + cfg.slotSize * i) % cfg.slotSize = 8 + offset := by
    rw [Nat.add_mul_mod_self_left]
    exact Nat.mod_eq_of_lt (by omega)
  have hsub : sub32 (8 + offset) 8 = offset := by
    rw [sub32_eq (by omega) (by omega)]
    omega
  unfold getChunk
  rw [hdiff, Int.toNat_natCast, hmod, u32_eq (by omega)]
  refine Prod.ext ?_ hsub
  dsimp only
  omega

/-- The chunks of a `ChunkPool` are those at the addresses, in their order. -/
theorem alloc_chunkPool {chunkPool : ChunkPool cfg} (htotal : pool.total = chunkPool.total)
    (hcount : pool.count = chunkPool.chunks.length) (listId stripeId chunkId : ℕ) :
    match chunkPool.alloc listId stripeId chunkId with
    | some (chunkPool', c) => pool.alloc cfg =
        ({ pool with count := chunkPool'.chunks.length },
          some (pool.startAddress + c * cfg.slotSize))
    | none => pool.alloc cfg = ({ pool with count := chunkPool.chunks.length }, none) := by
  obtain ⟨hlow, -⟩ := slotSize_bounds cfg
  have haddressable : pool.total * cfg.slotSize < 2 ^ 32 := htotal ▸ chunkPool.addressable
  have hle := chunkPool.length_le
  rw [alloc, ChunkPool.alloc, htotal, hcount]
  by_cases hlt : chunkPool.chunks.length < chunkPool.total
  · have hnext : u32 (chunkPool.chunks.length + 1) = chunkPool.chunks.length + 1 :=
      u32_eq (by nlinarith)
    rw [if_neg (Nat.not_le.mpr hlt), dif_pos hlt, hnext, place_eq haddressable (htotal ▸ hlt)]
    simp only [List.length_append, List.length_singleton]
  · have heq : chunkPool.total = chunkPool.chunks.length := by omega
    rw [if_pos (Nat.not_lt.mp hlt), dif_neg hlt, heq]

theorem allocates_of_addressable (h : pool.total * cfg.slotSize < 2 ^ 32)
    (hcount : pool.count = 0) : pool.Allocates cfg where
  disjoint := by
    intro n
    rw [allocated_of_addressable h hcount, List.pairwise_map]
    refine List.pairwise_lt_range.imp fun {i j} hij => ?_
    have hle : (i + 1) * cfg.slotSize ≤ j * cfg.slotSize := Nat.mul_le_mul_right _ hij
    rw [Nat.succ_mul] at hle
    omega
  inside := by
    intro n a ha
    rw [allocated_of_addressable h hcount] at ha
    obtain ⟨i, hi, rfl⟩ := List.mem_map.mp ha
    have hlt := List.mem_range.mp hi
    have hle : (i + 1) * cfg.slotSize ≤ pool.total * cfg.slotSize :=
      Nat.mul_le_mul_right _ (by omega)
    rw [Nat.succ_mul] at hle
    omega
  number := by
    intro n
    rw [allocated_of_addressable h hcount, List.length_map, List.length_range]
  getChunk_eq := by
    intro n a ha offset hoffset
    rw [allocated_of_addressable h hcount] at ha
    obtain ⟨i, hi, rfl⟩ := List.mem_map.mp ha
    have hlt := List.mem_range.mp hi
    have hle : (i + 1) * cfg.slotSize ≤ pool.total * cfg.slotSize :=
      Nat.mul_le_mul_right _ (by omega)
    exact getChunk_eq_of_slot (hle.trans_lt h) hoffset

/-! ## Pools beyond -/

/-- The chunk that crosses the end of the 32 bits is not handed out. -/
theorem place_crossing (h : 2 ^ 32 ≤ pool.total * cfg.slotSize) :
    ∃ index < pool.total, pool.place cfg index = none := by
  obtain ⟨hlow, hhigh⟩ := slotSize_bounds cfg
  have hpos : 0 < cfg.slotSize := by omega
  have hdiv : cfg.slotSize * ((2 ^ 32 - 1) / cfg.slotSize) ≤ 2 ^ 32 - 1 := Nat.mul_div_le _ _
  have hmod := Nat.lt_mul_div_succ (2 ^ 32 - 1) hpos
  generalize (2 ^ 32 - 1) / cfg.slotSize = index at hdiv hmod
  rw [Nat.mul_comm] at hdiv hmod
  rw [Nat.succ_mul] at hmod
  refine ⟨index, ?_, ?_⟩
  · refine lt_of_mul_lt_mul_right (lt_of_le_of_lt hdiv ?_) (Nat.zero_le cfg.slotSize)
    omega
  · have hend : u32 (pool.total * cfg.slotSize) < 2 ^ 32 := Nat.mod_lt _ (by norm_num)
    rw [place, u32_eq (by omega), if_neg (by omega)]

theorem addressable_of_allocates (h : pool.Allocates cfg) (htotal : pool.total < 2 ^ 32)
    (hcount : pool.count = 0) : pool.total * cfg.slotSize < 2 ^ 32 := by
  by_contra hlarge
  obtain ⟨index, hlt, hnone⟩ := place_crossing (Nat.not_lt.mp hlarge)
  have hlength := h.number pool.total
  rw [allocated_eq htotal (by omega), hcount, Nat.sub_zero, Nat.min_self] at hlength
  have hall := List.filterMap_length_eq_length.mp (hlength.trans List.length_range'.symm)
  have hsome := hall index (List.mem_range'_1.mpr ⟨Nat.zero_le _, by omega⟩)
  rw [hnone] at hsome
  cases hsome

/-- The end that `isInChunkPool` uses is one chunk too far, or short of the region. -/
theorem endOffset_ne (cfg : GlobalConfig) (total : ℕ) :
    u32 (cfg.slotSize * u32 (total + 1)) ≠ total * cfg.slotSize := by
  intro h
  obtain ⟨hlow, hhigh⟩ := slotSize_bounds cfg
  have hsmall : total * cfg.slotSize < 2 ^ 32 := h ▸ Nat.mod_lt _ (by norm_num)
  have hmul : u32 (cfg.slotSize * u32 (total + 1)) = u32 (total * cfg.slotSize + cfg.slotSize) := by
    rw [u32, u32, Nat.mul_mod_mod, Nat.mul_comm, Nat.succ_mul]
    rfl
  rw [hmul, u32] at h
  omega

theorem not_isInChunkPool_iff (pool : ChunkPoolVars) : ¬∀ a, pool.isInChunkPool cfg a ↔
    pool.startAddress ≤ a ∧ a < pool.startAddress + pool.total * cfg.slotSize := by
  intro h
  have hne := endOffset_ne cfg pool.total
  have hmin := h (pool.startAddress +
    min (u32 (cfg.slotSize * u32 (pool.total + 1))) (pool.total * cfg.slotSize))
  simp only [isInChunkPool, Bool.and_eq_true, decide_eq_true_eq] at hmin
  omega

/-- No pool is as it is to be, as `isInChunkPool` is wrong about its end. The other functions are
right exactly for the pools whose size has 32 bits. -/
theorem not_lawful_init (cfg : GlobalConfig) (capacity : UInt64) (startAddress : ℕ) :
    ¬(init cfg capacity startAddress).Lawful cfg ∧
      ((init cfg capacity startAddress).Allocates cfg ↔
        (init cfg capacity startAddress).total * cfg.slotSize < 2 ^ 32) := by
  have htotal : (init cfg capacity startAddress).total < 2 ^ 32 := Nat.mod_lt _ (by norm_num)
  refine ⟨fun h => not_isInChunkPool_iff _ h.isInChunkPool_iff, ?_, ?_⟩
  · exact fun h => addressable_of_allocates h htotal rfl
  · exact fun h => allocates_of_addressable h rfl

/-- The address behind a pool of one chunk passes for one of the pool. -/
theorem not_lawful_of_oneChunk : ¬∀ (cfg : GlobalConfig) (capacity : UInt64) (startAddress : ℕ),
    (init cfg capacity startAddress).Lawful cfg := by
  intro h
  have hbehind := ((h .smallest 40 4096).isInChunkPool_iff 4136).mp (by decide)
  exact absurd hbehind (by decide)

end ChunkPoolVars

end MemEC.Common
