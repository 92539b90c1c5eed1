import MemEC.Common.ChunkUtil

/-!
# The chunk pool and the stripe ids in use

A chunk pointer is the position of the chunk in the pool. `ChunkPool::alloc`
computes the address of a chunk in 32-bit arithmetic, so the chunks are
different pieces of memory when the whole pool is addressable in it; this is a
field of the pool here.
-/

namespace MemEC.Common

/-- `Metadata`. -/
structure Metadata where
  listId : ℕ
  stripeId : ℕ
  chunkId : ℕ
deriving DecidableEq

namespace Chunk

/-- A cleared chunk with these ids, which `ChunkIdentifier` keeps in 8, 48 and 8 bits. -/
def ofIds (listId stripeId chunkId : ℕ) : Chunk :=
  ⟨listId % 2 ^ 8, stripeId % 2 ^ 48, chunkId % 2 ^ 8, 0⟩

instance : Inhabited Chunk := ⟨ofIds 0 0 0⟩

/-- `ChunkUtil::getMetadata`. -/
def metadata (chunk : Chunk) : Metadata := ⟨chunk.listId, chunk.stripeId, chunk.chunkId⟩

/-- `ChunkUtil::set`. -/
def setIds (chunk : Chunk) (listId stripeId chunkId : ℕ) : Chunk :=
  { ofIds listId stripeId chunkId with data := chunk.data }

end Chunk

/-- `ChunkPool`: the chunks that were allocated, of `total` that there are. The `8` is
`CHUNK_IDENTIFIER_SIZE`. -/
structure ChunkPool (cfg : GlobalConfig) where
  total : ℕ
  chunks : List Chunk
  addressable : total * (8 + cfg.chunkSize) < 2 ^ 32
  length_le : chunks.length ≤ total

namespace ChunkPool

variable {cfg : GlobalConfig}

/-- The chunk behind a pointer. -/
def chunk (pool : ChunkPool cfg) (c : ℕ) : Chunk := pool.chunks.getD c default

/-- `ChunkPool::alloc`, with `none` for a null pointer. -/
def alloc (pool : ChunkPool cfg) (listId stripeId chunkId : ℕ) : Option (ChunkPool cfg × ℕ) :=
  if h : pool.chunks.length < pool.total then
    some ({ pool with
      chunks := pool.chunks ++ [Chunk.ofIds listId stripeId chunkId]
      length_le := by rw [List.length_append, List.length_singleton]; omega },
      pool.chunks.length)
  else none

/-- A write through a chunk pointer. -/
def modify (pool : ChunkPool cfg) (c : ℕ) (f : Chunk → Chunk) : ChunkPool cfg :=
  { pool with
    chunks := pool.chunks.modify c f
    length_le := by rw [List.length_modify]; exact pool.length_le }

@[simp] theorem length_modify (pool : ChunkPool cfg) (c : ℕ) (f : Chunk → Chunk) :
    (pool.modify c f).chunks.length = pool.chunks.length := List.length_modify _ _ _

theorem chunk_modify {pool : ChunkPool cfg} {c : ℕ} (hc : c < pool.chunks.length)
    (f : Chunk → Chunk) (d : ℕ) :
    (pool.modify c f).chunk d = if d = c then f (pool.chunk d) else pool.chunk d := by
  simp only [chunk, modify, List.getD_eq_getElem?_getD, List.getElem?_modify]
  split_ifs with h1 h2 h2
  · subst h1
    simp [List.getElem?_eq_getElem hc]
  · exact absurd h1.symm h2
  · exact absurd h2.symm h1
  · simp

theorem alloc_eq_some {pool pool' : ChunkPool cfg} {listId stripeId chunkId c : ℕ}
    (h : pool.alloc listId stripeId chunkId = some (pool', c)) :
    c = pool.chunks.length ∧ pool'.chunks = pool.chunks ++ [Chunk.ofIds listId stripeId chunkId] ∧
      pool'.total = pool.total := by
  unfold alloc at h
  split_ifs at h
  cases h
  exact ⟨rfl, rfl, rfl⟩

theorem chunk_of_append {pool pool' : ChunkPool cfg} {new : Chunk} {c : ℕ}
    (h : pool'.chunks = pool.chunks ++ [new]) :
    pool'.chunk c = if c = pool.chunks.length then new else pool.chunk c := by
  simp only [chunk, h, List.getD_eq_getElem?_getD, List.getElem?_append]
  split_ifs with h1 h2 h2
  · omega
  · rfl
  · subst h2
    simp
  · rw [List.getElem?_eq_none (by simpa using by omega), List.getElem?_eq_none (by omega)]

end ChunkPool

/-- The loop of `Map::nextStripeID`. -/
def nextStripeIdLoop (sids : List ℕ) : ℕ → ℕ → ℕ
  | 0, ret => ret
  | fuel + 1, ret => if ret ∈ sids then nextStripeIdLoop sids fuel (u32 (ret + 1)) else ret

/-- `Map::nextStripeID`: the first stripe id from `start` on that is not in use. One more round
than there are ids in use is enough. -/
def nextStripeId (sids : List ℕ) (start : ℕ) : ℕ := nextStripeIdLoop sids sids.length start

theorem nextStripeIdLoop_lt {sids : List ℕ} {fuel ret : ℕ} (h : ret < 2 ^ 32) :
    nextStripeIdLoop sids fuel ret < 2 ^ 32 := by
  induction fuel generalizing ret with
  | zero => exact h
  | succ fuel ih =>
    rw [nextStripeIdLoop]
    split_ifs
    · exact ih (Nat.mod_lt _ (by norm_num))
    · exact h

/-- If the loop ends on an id in use, all the ids that it passed are in use. -/
theorem nextStripeIdLoop_passed {sids : List ℕ} {fuel ret : ℕ}
    (h : nextStripeIdLoop sids fuel ret ∈ sids) (hret : ret < 2 ^ 32) :
    ∀ j ≤ fuel, u32 (ret + j) ∈ sids := by
  induction fuel generalizing ret with
  | zero =>
    intro j hj
    rw [Nat.le_zero.mp hj, Nat.add_zero, u32_eq hret]
    exact h
  | succ fuel ih =>
    rw [nextStripeIdLoop] at h
    split_ifs at h with hmem
    · intro j hj
      cases j with
      | zero => rwa [Nat.add_zero, u32_eq hret]
      | succ j =>
        have hj' := ih h (Nat.mod_lt _ (by norm_num)) j (Nat.le_of_succ_le_succ hj)
        rwa [u32, u32, Nat.mod_add_mod, Nat.add_assoc, Nat.add_comm 1] at hj'
    · exact absurd h hmem

theorem nextStripeId_notMem {sids : List ℕ} {start : ℕ} (hstart : start < 2 ^ 32)
    (hsids : sids.length < 2 ^ 32) : nextStripeId sids start ∉ sids := by
  intro hmem
  have hpass := nextStripeIdLoop_passed hmem hstart
  let ids := (List.range (sids.length + 1)).map fun j => u32 (start + j)
  have hsub : ids ⊆ sids := by
    intro x hx
    obtain ⟨j, hj, rfl⟩ := List.mem_map.mp hx
    exact hpass j (Nat.le_of_lt_succ (List.mem_range.mp hj))
  have hnodup : ids.Nodup := by
    refine List.Nodup.map_on (fun a ha b hb hab => ?_) List.nodup_range
    have ha' := List.mem_range.mp ha
    have hb' := List.mem_range.mp hb
    simp only [u32] at hab
    omega
  have hlen := (List.subperm_of_subset hnodup hsub).length_le
  simp only [ids, List.length_map, List.length_range] at hlen
  omega

end MemEC.Common
