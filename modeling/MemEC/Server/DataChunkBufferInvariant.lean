import MemEC.Server.DataChunkBuffer

/-!
# Runs of the data chunk buffer

The occupancy of a chunk is kept in three places: in `sizes`, in the headers of
the objects in the chunk, and in the metadata that `set` returned for them. The
invariant says that they agree, for the open chunks and for those that have
been sealed.
-/

namespace MemEC.Server

open MemEC.Lib MemEC.Common KeyValue ChunkUtil

variable {cfg : GlobalConfig}

namespace DataServer

/-- What `set` returned, with the object that it was called for. -/
abbrev SetLog (cfg : GlobalConfig) := List (KeyMetadata × Object cfg)

/-- What was put into a chunk, in order. -/
def inChunk (log : SetLog cfg) (c : ℕ) : SetLog cfg := log.filter fun p => p.1.chunk = c

def contents (log : SetLog cfg) (c : ℕ) : List (Object cfg) := (inChunk log c).map Prod.snd

theorem inChunk_concat (log : SetLog cfg) (p : KeyMetadata × Object cfg) (c : ℕ) :
    inChunk (log ++ [p]) c = if p.1.chunk = c then inChunk log c ++ [p] else inChunk log c := by
  rw [inChunk, List.filter_append]
  split_ifs with h <;> simp [inChunk, h]

theorem contents_concat (log : SetLog cfg) (p : KeyMetadata × Object cfg) (c : ℕ) :
    contents (log ++ [p]) c = if p.1.chunk = c then contents log c ++ [p.2] else contents log c := by
  rw [contents, inChunk_concat]
  split_ifs with h <;> simp [contents]

theorem contents_subset {log : SetLog cfg} {c : ℕ} {o : Object cfg} (h : o ∈ contents log c) :
    ∃ p ∈ log, p.2 = o := by
  obtain ⟨p, hp, rfl⟩ := List.mem_map.mp h
  exact ⟨p, List.mem_of_mem_filter hp, rfl⟩

theorem inChunk_eq_nil {log : SetLog cfg} {c : ℕ} (h : ∀ p ∈ log, p.1.chunk ≠ c) :
    inChunk log c = [] := by
  refine List.filter_eq_nil_iff.mpr fun p hp => ?_
  simpa using h p hp

/-- The chunks that the buffer has been given, open or sealed, when the pool had handed out `n0`
chunks before. -/
def handedOut (n0 : ℕ) (s : DataServer cfg) : List ℕ := List.range' n0 (s.pool.chunks.length - n0)

/-- The ids of chunks and the stripe ids in use. -/
structure IdInv (n0 : ℕ) (used0 : List ℕ) (s : DataServer cfg) (cs : List ℕ) : Prop where
  ids : ∀ c ∈ cs, (s.pool.chunk c).listId = s.buffer.listId % 2 ^ 8 ∧
    (s.pool.chunk c).chunkId = s.buffer.chunkId % 2 ^ 8
  distinct : (cs.map fun c => (s.pool.chunk c).stripeId).Nodup
  inUse : ∀ c ∈ cs, (s.pool.chunk c).stripeId ∈ s.stripeIds
  fresh : ∀ c ∈ cs, (s.pool.chunk c).stripeId ∉ used0
  used : used0 ⊆ s.stripeIds
  counter : s.buffer.stripeId < 2 ^ 32
  few : s.stripeIds.length ≤ n0 + cs.length

/-- The invariant of the data chunk buffer. -/
structure Inv (n0 : ℕ) (used0 : List ℕ) (s : DataServer cfg) (log : SetLog cfg) : Prop where
  noReInserted : s.buffer.reInsertedChunks = []
  isData : s.buffer.chunkId < s.dataChunkCount
  count_pos : 0 < s.buffer.chunks.length
  le_pool : n0 ≤ s.pool.chunks.length
  perm : (s.sealed ++ s.buffer.chunks).Perm (handedOut n0 s)
  idInv : IdInv n0 used0 s (handedOut n0 s)
  holds : ∀ c ∈ handedOut n0 s, ChunkHolds (s.pool.chunk c).data (contents log c)
  offsets : ∀ c, (inChunk log c).map (fun p => (p.1.offset, p.2)) = placed 0 (contents log c)
  inPool : ∀ p ∈ log, p.1.chunk ∈ handedOut n0 s
  sizes : s.buffer.sizes = s.buffer.chunks.map fun c => (layout (contents log c)).length
  visible : ∀ p ∈ log, p.2.Visible
  lengths : ∀ p ∈ log, p.1.length = p.2.size

variable {n0 : ℕ} {used0 : List ℕ} {s s' : DataServer cfg} {log : SetLog cfg}

theorem mem_handedOut {c : ℕ} (h : n0 ≤ s.pool.chunks.length) :
    c ∈ handedOut n0 s ↔ n0 ≤ c ∧ c < s.pool.chunks.length := by
  rw [handedOut, List.mem_range'_1]
  omega

theorem pool_lt (pool : ChunkPool cfg) : pool.chunks.length < 2 ^ 32 := by
  have h1 := pool.addressable
  have h2 := pool.length_le
  have h3 : pool.total ≤ pool.total * (8 + cfg.chunkSize) := Nat.le_mul_of_pos_right _ (by omega)
  omega

/-- Giving a chunk the next stripe id. -/
theorem IdInv.next {cs : List ℕ} (h : IdInv n0 used0 s cs)
    (hlt : n0 + cs.length < 2 ^ 32) {new : ℕ}
    (hpool : ∀ c ∈ cs, s'.pool.chunk c = s.pool.chunk c) {data : Memory}
    (hchunk : s'.pool.chunk new = { Chunk.ofIds s.buffer.listId
      (nextStripeId s.stripeIds s.buffer.stripeId) s.buffer.chunkId with data })
    (hs : s'.stripeIds = s.stripeIds.insert
      (nextStripeId s.stripeIds s.buffer.stripeId) ∧
      s'.buffer.listId = s.buffer.listId ∧ s'.buffer.chunkId = s.buffer.chunkId ∧
      s'.buffer.stripeId < 2 ^ 32) :
    IdInv n0 used0 s' (cs ++ [new]) := by
  obtain ⟨hsids, hl, hc, hctr⟩ := hs
  set sid := nextStripeId s.stripeIds s.buffer.stripeId with hsid
  have hfew := h.few
  have hnotin : sid ∉ s.stripeIds := nextStripeId_notMem h.counter (by omega)
  have hsidlt : sid < 2 ^ 32 := nextStripeIdLoop_lt h.counter
  have hsame : ∀ c ∈ cs, (s'.pool.chunk c).stripeId = (s.pool.chunk c).stripeId := by
    intro c hmem
    rw [hpool c hmem]
  have hstripe : (s'.pool.chunk new).stripeId = sid := by
    rw [hchunk]
    exact Nat.mod_eq_of_lt (by omega)
  have hinsert : s'.stripeIds = sid :: s.stripeIds := by
    rw [hsids]
    exact List.insert_of_not_mem hnotin
  refine ⟨?_, ?_, ?_, ?_, ?_, hctr, ?_⟩
  · intro c hmem
    rw [hl, hc]
    rcases List.mem_append.mp hmem with hmem | hmem
    · rw [hpool c hmem]
      exact h.ids c hmem
    · rw [List.mem_singleton.mp hmem, hchunk]
      exact ⟨rfl, rfl⟩
  · rw [List.map_append, List.map_congr_left hsame, List.map_singleton, hstripe]
    refine List.Nodup.append h.distinct (List.nodup_singleton _) ?_
    intro x hx hx'
    obtain ⟨c, hmem, rfl⟩ := List.mem_map.mp hx
    rw [List.mem_singleton] at hx'
    exact hnotin (hx' ▸ h.inUse c hmem)
  · intro c hmem
    rw [hinsert]
    rcases List.mem_append.mp hmem with hmem | hmem
    · rw [hsame c hmem]
      exact List.mem_cons_of_mem _ (h.inUse c hmem)
    · rw [List.mem_singleton.mp hmem, hstripe]
      exact List.mem_cons_self
  · intro c hmem
    rcases List.mem_append.mp hmem with hmem | hmem
    · rw [hsame c hmem]
      exact h.fresh c hmem
    · rw [List.mem_singleton.mp hmem, hstripe]
      exact fun hu => hnotin (h.used hu)
  · intro x hx
    rw [hinsert]
    exact List.mem_cons_of_mem _ (h.used hx)
  · rw [hinsert, List.length_cons, List.length_append, List.length_singleton]
    omega

theorem handedOut_succ {pool : ChunkPool cfg} (h : n0 ≤ s.pool.chunks.length)
    (hpool : pool.chunks.length = s.pool.chunks.length + 1) (hs : s'.pool = pool) :
    handedOut n0 s' = handedOut n0 s ++ [s.pool.chunks.length] := by
  rw [handedOut, handedOut, hs, hpool, Nat.sub_add_comm h, List.range'_concat]
  congr 2
  omega

/-- Replacing an open chunk by a fresh one. -/
theorem Inv.flushAt (hi : Inv n0 used0 s log) {index : ℕ} (hlt : index < s.buffer.chunks.length)
    (h : s.flushAt index = some s') :
    Inv n0 used0 s' log ∧ s'.buffer.chunks[index]? = some s.pool.chunks.length ∧
      contents log s.pool.chunks.length = [] ∧ s'.chunkAt index = s.pool.chunks.length := by
  unfold DataServer.flushAt at h
  cases hal : s.pool.alloc s.buffer.listId (nextStripeId s.stripeIds s.buffer.stripeId)
    s.buffer.chunkId with
  | none => simp [hal] at h
  | some pc =>
    obtain ⟨pool, new⟩ := pc
    obtain ⟨rfl, hchunks, -⟩ := ChunkPool.alloc_eq_some hal
    simp only [hal, Option.some.injEq] at h
    have hlen : pool.chunks.length = s.pool.chunks.length + 1 := by
      rw [hchunks, List.length_append, List.length_singleton]
    have hs' : s'.pool = pool := by rw [← h]
    have hhanded := handedOut_succ hi.le_pool hlen hs'
    have hold : ∀ c ∈ handedOut n0 s, pool.chunk c = s.pool.chunk c := by
      intro c hmem
      have := (mem_handedOut hi.le_pool).mp hmem
      rw [ChunkPool.chunk_of_append hchunks, if_neg (by omega)]
    have hnew : pool.chunk s.pool.chunks.length = Chunk.ofIds s.buffer.listId
        (nextStripeId s.stripeIds s.buffer.stripeId) s.buffer.chunkId := by
      rw [ChunkPool.chunk_of_append hchunks, if_pos rfl]
    have hnotin : s.pool.chunks.length ∉ handedOut n0 s := by
      rw [mem_handedOut hi.le_pool]
      omega
    have hnil : inChunk log s.pool.chunks.length = [] := by
      refine inChunk_eq_nil fun p hp heq => hnotin ?_
      rw [← heq]
      exact hi.inPool p hp
    have hcontents : contents log s.pool.chunks.length = [] := by rw [contents, hnil, List.map_nil]
    have hchunkAt : s.buffer.chunks[index]? = some (s.chunkAt index) := by
      rw [chunkAt, List.getD_eq_getElem?_getD, List.getElem?_eq_getElem hlt, Option.getD_some]
    have hget : s'.buffer.chunks[index]? = some s.pool.chunks.length := by
      rw [← h]
      simp [hlt]
    have hpoollt := pool_lt pool
    refine ⟨⟨?_, ?_, ?_, ?_, ?_, ?_, ?_, hi.offsets, ?_, ?_, hi.visible, hi.lengths⟩, hget,
      hcontents, ?_⟩
    · rw [← h]
      exact hi.noReInserted
    · rw [← h]
      exact hi.isData
    · rw [← h]
      simpa using hi.count_pos
    · rw [hs', hlen]
      exact Nat.le_succ_of_le hi.le_pool
    · rw [hhanded, ← h]
      calc
        List.Perm (s.sealed ++ [s.chunkAt index] ++ s.buffer.chunks.set index s.pool.chunks.length)
            (s.sealed ++ (s.pool.chunks.length :: s.buffer.chunks)) := by
            rw [List.append_assoc]
            exact (perm_set_of_getElem? hchunkAt _).append_left _
        List.Perm _ (s.sealed ++ s.buffer.chunks ++ [s.pool.chunks.length]) := by
            rw [List.append_assoc]
            exact (List.perm_append_singleton _ _).symm.append_left _
        List.Perm _ (handedOut n0 s ++ [s.pool.chunks.length]) := hi.perm.append_right _
    · rw [hhanded]
      have hlen' : (handedOut n0 s).length = s.pool.chunks.length - n0 := List.length_range'
      have hle := hi.le_pool
      refine hi.idInv.next (by omega) (by rwa [hs']) (by rwa [hs']) ⟨?_, ?_, ?_, ?_⟩
      · rw [← h]
      · rw [← h]
      · rw [← h]
      · rw [← h]
        exact Nat.mod_lt _ (by norm_num)
    · rw [hhanded, hs']
      intro c hmem
      rcases List.mem_append.mp hmem with hmem | hmem
      · rw [hold c hmem]
        exact hi.holds c hmem
      · rw [List.mem_singleton.mp hmem, hnew, hcontents]
        exact ChunkHolds.empty fun _ _ => rfl
    · rw [hhanded]
      intro p hp
      exact List.mem_append_left _ (hi.inPool p hp)
    · rw [← h]
      simp only
      rw [List.map_set, hcontents, hi.sizes]
      rfl
    · rw [chunkAt, List.getD_eq_getElem?_getD, hget, Option.getD_some]

theorem flushIndex_lt (s : DataServer cfg) (h : 0 < s.buffer.chunks.length) :
    s.flushIndex < s.buffer.chunks.length := by
  refine List.foldlRecOn (motive := fun best : ℕ × ℕ => best.2 < s.buffer.chunks.length) _ _ h ?_
  intro best hbest i hi
  have hlt := List.mem_range.mp (List.mem_of_mem_tail hi)
  unfold flushStep
  split_ifs
  · exact hlt
  · exact hlt
  · exact hbest
  · exact hbest

/-- A chunk that is chosen has room. -/
theorem choose_spec {size index : ℕ} (hsmall : ∀ i, s.sizeAt i + size < 2 ^ 32)
    (h : s.choose size = some index) :
    index < s.buffer.chunks.length ∧ s.sizeAt index + size ≤ cfg.chunkSize := by
  have hfold : ∀ i, s.choose size = some i →
      i < s.buffer.chunks.length ∧ s.sizeAt i + size ≤ cfg.chunkSize := by
    refine List.foldlRecOn (motive := fun best : ℕ × Option ℕ => ∀ i, best.2 = some i →
      i < s.buffer.chunks.length ∧ s.sizeAt i + size ≤ cfg.chunkSize) _ _ (by simp) ?_
    intro best hbest i hi j hj
    have hlt := List.mem_range.mp hi
    simp only [chooseStep, u32_eq (hsmall i)] at hj
    split_ifs at hj with hroom hmax
    · cases hj
      exact ⟨hlt, hroom⟩
    · cases hb : best.2 with
      | none =>
        rw [hb] at hj
        exact hbest j hj
      | some index =>
        rw [hb] at hj
        simp only at hj
        split_ifs at hj
        · cases hj
          exact ⟨hlt, hroom⟩
        · exact hbest j hj
    · exact hbest j hj
  exact hfold index h

theorem Inv.sizeAt_eq (hi : Inv n0 used0 s log) {index : ℕ}
    (hlt : index < s.buffer.chunks.length) :
    s.sizeAt index = (layout (contents log (s.chunkAt index))).length := by
  simp [sizeAt, chunkAt, hi.sizes, List.getD_eq_getElem?_getD, List.getElem?_map,
    List.getElem?_eq_getElem hlt]

theorem Inv.chunkAt_mem (hi : Inv n0 used0 s log) {index : ℕ}
    (hlt : index < s.buffer.chunks.length) : s.chunkAt index ∈ handedOut n0 s := by
  have hmem : s.chunkAt index ∈ s.buffer.chunks := by
    rw [chunkAt, List.getD_eq_getElem?_getD, List.getElem?_eq_getElem hlt, Option.getD_some]
    exact List.getElem_mem hlt
  exact hi.perm.subset (List.mem_append_right _ hmem)

theorem Inv.sizeAt_le (hi : Inv n0 used0 s log) (index : ℕ) : s.sizeAt index ≤ cfg.chunkSize := by
  by_cases hlt : index < s.buffer.chunks.length
  · rw [hi.sizeAt_eq hlt]
    exact (hi.holds _ (hi.chunkAt_mem hlt)).fits
  · have hnone : s.buffer.sizes[index]? = none := by
      rw [hi.sizes]
      exact List.getElem?_eq_none (by simpa using hlt)
    simp [sizeAt, List.getD_eq_getElem?_getD, hnone]

/-- The chunk that `set` picks has room for the object. -/
theorem Inv.pick (hi : Inv n0 used0 s log) {size c : ℕ} {index : Option ℕ} {sealed : List Metadata}
    (hsize : size ≤ cfg.chunkSize) (h : s.pick size = some (s', c, index, sealed)) :
    ∃ i, index = some i ∧ Inv n0 used0 s' log ∧ s'.buffer.chunks[i]? = some c ∧
      (layout (contents log c)).length + size ≤ cfg.chunkSize := by
  have hre : s.pickReInserted size = none := by
    unfold pickReInserted
    rw [hi.noReInserted]
    split_ifs <;> rfl
  have hc := cfg.chunkSize_le
  unfold DataServer.pick at h
  rw [hre] at h
  cases hch : s.choose size with
  | some i =>
    simp only [hch, Option.some.injEq, Prod.mk.injEq] at h
    obtain ⟨rfl, rfl, rfl, -⟩ := h
    have hle : ∀ i, s.sizeAt i + size < 2 ^ 32 := fun i => by
      have := hi.sizeAt_le i
      omega
    obtain ⟨hlt, hroom⟩ := choose_spec hle hch
    refine ⟨i, rfl, hi, ?_, ?_⟩
    · rw [chunkAt, List.getD_eq_getElem?_getD, List.getElem?_eq_getElem hlt, Option.getD_some]
    · rwa [hi.sizeAt_eq hlt] at hroom
  | none =>
    simp only [hch] at h
    cases hf : s.flushAt s.flushIndex with
    | none => simp [hf] at h
    | some s1 =>
      simp only [hf, Option.some.injEq, Prod.mk.injEq] at h
      obtain ⟨rfl, rfl, rfl, -⟩ := h
      obtain ⟨hi', hget, hnil, hat⟩ := hi.flushAt (flushIndex_lt s hi.count_pos) hf
      refine ⟨s.flushIndex, rfl, hi', ?_, ?_⟩
      · rw [hat, hget]
      · rw [hat, hnil]
        simpa using hsize

/-- Storing an object in an open chunk with room. -/
theorem Inv.put (hi : Inv n0 used0 s log) {i c : ℕ} {o : Object cfg} (ho : o.Visible)
    (hc : s.buffer.chunks[i]? = some c)
    (hroom : (layout (contents log c)).length + o.size ≤ cfg.chunkSize) (degradedSet : Bool) :
    Inv n0 used0
      (s.put c (some i) o.size o.key o.payload o.valueSize o.splitOffset degradedSet).1
      (log ++ [((s.put c (some i) o.size o.key o.payload o.valueSize o.splitOffset
        degradedSet).2, o)]) ∧
    (s.put c (some i) o.size o.key o.payload o.valueSize o.splitOffset degradedSet).2.offset =
      (layout (contents log c)).length := by
  have hmem : c ∈ handedOut n0 s :=
    hi.perm.subset (List.mem_append_right _ (List.mem_of_getElem? hc))
  have hvis : ∀ x ∈ contents log c, x.Visible := fun x hx => by
    obtain ⟨p, hp, rfl⟩ := contents_subset hx
    exact hi.visible p hp
  have hsize := (hi.holds c hmem).dataSize_eq hvis
  set md : KeyMetadata := ⟨s.buffer.listId, (s.pool.chunk c).stripeId, s.buffer.chunkId,
    (layout (contents log c)).length, o.size, degradedSet, c⟩ with hmd
  have hput : s.put c (some i) o.size o.key o.payload o.valueSize o.splitOffset degradedSet =
      ({ s with
        pool := s.pool.modify c fun chunk =>
          { chunk with data := (ChunkUtil.store cfg (s.pool.chunk c).data o).1 }
        buffer := { s.buffer with sizes := s.buffer.sizes.modify i fun n => u32 (n + o.size) } },
        md) := by
    rw [hmd, ← hsize]
    rfl
  rw [hput]
  refine ⟨?_, rfl⟩
  have hcs := cfg.chunkSize_le
  have hcpool : c < s.pool.chunks.length := ((mem_handedOut hi.le_pool).mp hmem).2
  have hchunk := fun d => ChunkPool.chunk_modify hcpool
    (fun chunk => { chunk with data := (ChunkUtil.store cfg (s.pool.chunk c).data o).1 }) d
  have hstored := (hi.holds c hmem).store hvis hroom
  -- An open chunk stands at one position only.
  have hnodup : s.buffer.chunks.Nodup := by
    have := hi.perm.nodup_iff.mpr List.nodup_range'
    exact (List.nodup_append.mp this).2.1
  have hother : ∀ j d, s.buffer.chunks[j]? = some d → (d = c ↔ j = i) := by
    intro j d hd
    constructor
    · rintro rfl
      exact (List.getElem?_inj (List.getElem?_eq_some_iff.mp hd).1 hnodup).mp (hd.trans hc.symm)
    · rintro rfl
      exact Option.some.inj (hd.symm.trans hc)
  have hhanded : ∀ {pool : ChunkPool cfg} {b : DataChunkBuffer},
      pool.chunks.length = s.pool.chunks.length →
      handedOut n0 { s with pool := pool, buffer := b } = handedOut n0 s := by
    intro pool b hp
    rw [handedOut, handedOut, hp]
  refine ⟨hi.noReInserted, hi.isData, hi.count_pos, ?_, ?_, ?_, ?_, ?_, ?_, ?_, ?_, ?_⟩
  · simpa using hi.le_pool
  · rw [hhanded (ChunkPool.length_modify ..)]
    exact hi.perm
  · rw [hhanded (ChunkPool.length_modify ..)]
    have hsame : ∀ d, ((s.pool.modify c fun chunk =>
        { chunk with data := (ChunkUtil.store cfg (s.pool.chunk c).data o).1 }).chunk d).metadata =
        (s.pool.chunk d).metadata := by
      intro d
      rw [hchunk]
      split_ifs <;> rfl
    have hid := hi.idInv
    have hstripe := fun d => congrArg Metadata.stripeId (hsame d)
    have hlist := fun d => congrArg Metadata.listId (hsame d)
    have hchunkId := fun d => congrArg Metadata.chunkId (hsame d)
    simp only [Chunk.metadata] at hstripe hlist hchunkId
    refine ⟨fun d hd => ?_, ?_, fun d hd => ?_, fun d hd => ?_, hid.used, hid.counter, hid.few⟩
    · simp only [hlist, hchunkId]
      exact hid.ids d hd
    · simp only [hstripe]
      exact hid.distinct
    · simp only [hstripe]
      exact hid.inUse d hd
    · simp only [hstripe]
      exact hid.fresh d hd
  · rw [hhanded (ChunkPool.length_modify ..)]
    intro d hd
    simp only [hchunk, contents_concat, hmd]
    by_cases hdc : d = c
    · subst hdc
      rw [if_pos rfl, if_pos rfl]
      exact hstored
    · rw [if_neg hdc, if_neg (Ne.symm hdc)]
      exact hi.holds d hd
  · intro d
    rw [inChunk_concat, contents_concat]
    split_ifs with hd
    · have hcd : c = d := hd
      subst hcd
      rw [List.map_append, hi.offsets, placed_append, Nat.zero_add]
      rfl
    · exact hi.offsets d
  · rw [hhanded (ChunkPool.length_modify ..)]
    intro p hp
    rcases List.mem_append.mp hp with hp | hp
    · exact hi.inPool p hp
    · rw [List.mem_singleton.mp hp]
      exact hmem
  · refine List.ext_getElem? fun j => ?_
    simp only [List.getElem?_modify, hi.sizes, List.getElem?_map, contents_concat, hmd]
    cases hj : s.buffer.chunks[j]? with
    | none => simp
    | some d =>
      have hiff := hother j d hj
      by_cases hji : j = i
      · have hdc := hiff.mpr hji
        subst hdc hji
        have hu : u32 ((layout (contents log d)).length + o.size) =
            (layout (contents log d)).length + o.size := u32_eq (by omega)
        simp [length_layout_concat, hu]
      · have hdc : d ≠ c := fun h => hji (hiff.mp h)
        simp [Ne.symm hdc, Ne.symm hji]
  · intro p hp
    rcases List.mem_append.mp hp with hp | hp
    · exact hi.visible p hp
    · rw [List.mem_singleton.mp hp]
      exact ho
  · intro p hp
    rcases List.mem_append.mp hp with hp | hp
    · exact hi.lengths p hp
    · rw [List.mem_singleton.mp hp]

theorem Inv.flushIfFull (hi : Inv n0 used0 s log) {i c : ℕ} {sealed : List Metadata}
    (hlt : i < s.buffer.chunks.length) (h : s.flushIfFull c (some i) = some (s', sealed)) :
    Inv n0 used0 s' log := by
  unfold DataServer.flushIfFull at h
  split_ifs at h with hfull
  · cases hf : s.flushAt i with
    | none => simp [hf] at h
    | some s1 =>
      simp only [hf, Option.some.injEq, Prod.mk.injEq] at h
      obtain ⟨rfl, -⟩ := h
      exact (hi.flushAt hlt hf).1
  · cases h
    exact hi

/-- One `set` keeps the invariant, and finds room for the object. -/
theorem Inv.set (hi : Inv n0 used0 s log) {o : Object cfg} (ho : o.Visible) {degradedSet : Bool}
    {md : KeyMetadata} {sealed : List Metadata}
    (h : s.set o.key o.payload o.valueSize o.splitOffset degradedSet = some (s', md, sealed)) :
    Inv n0 used0 s' (log ++ [(md, o)]) ∧ md.offset = (layout (contents log md.chunk)).length ∧
      md.offset + md.length ≤ cfg.chunkSize := by
  unfold DataServer.set at h
  rw [o.storedSize_eq] at h
  cases hp : s.pick o.size with
  | none => simp [hp] at h
  | some r =>
    obtain ⟨s1, c, index, sealed1⟩ := r
    obtain ⟨i, rfl, hi1, hc, hroom⟩ := hi.pick o.size_le hp
    obtain ⟨hstore, hoff⟩ := hi1.put ho hc hroom degradedSet
    have hlen : (s1.put c (some i) o.size o.key o.payload o.valueSize o.splitOffset
        degradedSet).1.buffer.chunks = s1.buffer.chunks := rfl
    simp only [hp] at h
    cases hf : (s1.put c (some i) o.size o.key o.payload o.valueSize o.splitOffset
      degradedSet).1.flushIfFull c (some i) with
    | none => simp [hf] at h
    | some r =>
      obtain ⟨s3, sealed2⟩ := r
      simp only [hf, Option.some.injEq, Prod.mk.injEq] at h
      obtain ⟨rfl, rfl, -⟩ := h
      refine ⟨hstore.flushIfFull ?_ hf, hoff, ?_⟩
      · rw [hlen]
        exact (List.getElem?_eq_some_iff.mp hc).1
      · rw [hoff]
        exact hroom

/-! ## A fresh buffer -/

theorem allocChunks_spec {pool pool' : ChunkPool cfg} {count : ℕ} {cs : List ℕ}
    (h : allocChunks pool count = some (pool', cs)) :
    cs = List.range' pool.chunks.length count ∧
      pool'.chunks = pool.chunks ++ List.replicate count (Chunk.ofIds 0 0 0) := by
  induction count generalizing pool cs with
  | zero =>
    cases h
    exact ⟨rfl, by simp⟩
  | succ count ih =>
    rw [allocChunks] at h
    cases hal : pool.alloc 0 0 0 with
    | none => simp [hal] at h
    | some r =>
      obtain ⟨pool1, c⟩ := r
      obtain ⟨rfl, hchunks, -⟩ := ChunkPool.alloc_eq_some hal
      cases hrest : allocChunks pool1 count with
      | none => simp [hal, hrest] at h
      | some r =>
        obtain ⟨pool2, cs'⟩ := r
        simp only [hal, hrest, Option.some.injEq, Prod.mk.injEq] at h
        obtain ⟨rfl, rfl⟩ := h
        obtain ⟨rfl, hpool⟩ := ih hrest
        refine ⟨?_, ?_⟩
        · rw [hchunks, List.length_append, List.length_singleton, List.range'_succ]
        · rw [hpool, hchunks, List.append_assoc]
          rfl

/-- Giving ids to the chunks of a fresh buffer, of which `cs` have theirs. -/
theorem initStep_spec {cs : List ℕ} (todo : List ℕ) (h : IdInv n0 used0 s cs)
    (hnodup : (cs ++ todo).Nodup) (hpool : ∀ c ∈ todo, c < s.pool.chunks.length)
    (hlt : n0 + (cs ++ todo).length < 2 ^ 32) :
    let s' := todo.foldl initStep s
    IdInv n0 used0 s' (cs ++ todo) ∧ s'.pool.chunks.length = s.pool.chunks.length ∧
      (∀ c, (s'.pool.chunk c).data = (s.pool.chunk c).data) ∧
      s'.dataChunkCount = s.dataChunkCount ∧ s'.sealed = s.sealed ∧
      s'.buffer = { s.buffer with stripeId := s'.buffer.stripeId } := by
  induction todo generalizing s cs with
  | nil => exact ⟨by rwa [List.append_nil], rfl, fun _ => rfl, rfl, rfl, rfl⟩
  | cons c todo ih =>
    have hc := hpool c List.mem_cons_self
    have hchunk := ChunkPool.chunk_modify hc
      fun chunk => chunk.setIds s.buffer.listId (nextStripeId s.stripeIds s.buffer.stripeId)
        s.buffer.chunkId
    have hassoc : cs ++ c :: todo = cs ++ [c] ++ todo := by simp
    rw [hassoc] at hnodup hlt ⊢
    have hnotin : c ∉ cs := fun hmem =>
      (List.nodup_append.mp (List.nodup_append.mp hnodup).1).2.2 c hmem c List.mem_cons_self rfl
    have hid : IdInv n0 used0 (initStep s c) (cs ++ [c]) := by
      refine h.next ?_ ?_ ((hchunk c).trans (if_pos rfl))
        ⟨rfl, rfl, rfl, Nat.mod_lt _ (by norm_num)⟩
      · simp only [List.length_append, List.length_singleton] at hlt
        omega
      · intro d hd
        exact (hchunk d).trans (if_neg fun hdc : d = c => hnotin (hdc ▸ hd))
    obtain ⟨h1, h2, h3, h4, h5, h6⟩ := ih hid hnodup
      (fun d hd => by
        rw [initStep, ChunkPool.length_modify]
        exact hpool d (List.mem_cons_of_mem _ hd)) hlt
    refine ⟨h1, ?_, fun d => ?_, h4, h5, h6⟩
    · rw [List.foldl_cons, h2, initStep, ChunkPool.length_modify]
    · rw [List.foldl_cons, h3]
      refine (congrArg Chunk.data (hchunk d)).trans ?_
      split_ifs <;> rfl

/-- A fresh buffer. The stripe ids in use belong to chunks of the pool. -/
theorem Inv.create {pool : ChunkPool cfg} {count listId stripeId chunkId dataChunkCount
    parityChunkCount : ℕ} (hcount : 0 < count) (hstripe : stripeId < 2 ^ 32)
    (hchunkId : chunkId < dataChunkCount) (hused : used0.length ≤ pool.chunks.length)
    (h : DataServer.create dataChunkCount parityChunkCount pool used0 count listId stripeId
      chunkId = some s) :
    Inv pool.chunks.length used0 s [] := by
  unfold DataServer.create at h
  cases hal : allocChunks pool count with
  | none => simp [hal] at h
  | some r =>
    obtain ⟨pool', cs⟩ := r
    obtain ⟨hcs, hchunks⟩ := allocChunks_spec hal
    simp only [hal, Option.some.injEq] at h
    set s0 : DataServer cfg := ⟨dataChunkCount, parityChunkCount, pool', used0, [], [],
      ⟨listId, stripeId, chunkId, cs, List.replicate count 0, [], 0⟩⟩ with hs0
    have hlen : pool'.chunks.length = pool.chunks.length + count := by
      rw [hchunks, List.length_append, List.length_replicate]
    have hlt := pool_lt pool'
    have hcslen : cs.length = count := by rw [hcs, List.length_range']
    have hnil : IdInv pool.chunks.length used0 s0 [] :=
      ⟨by simp, by simp, by simp, by simp, List.Subset.refl _, hstripe, hused⟩
    obtain ⟨hid, hpool, hdata, hdcc, hsealed, hbuf⟩ := initStep_spec cs hnil
      (by rw [List.nil_append, hcs]; exact List.nodup_range')
      (fun c hc => by
        rw [hcs, List.mem_range'_1] at hc
        have : s0.pool = pool' := rfl
        rw [this]
        omega)
      (by rw [List.nil_append, hcslen]; omega)
    rw [h] at hid hpool hdata hdcc hsealed hbuf
    have hpool' : s.pool.chunks.length = pool.chunks.length + count := hpool.trans hlen
    have hchunksEq : s.buffer.chunks = cs := by rw [hbuf]
    have hhanded : handedOut pool.chunks.length s = cs := by
      rw [handedOut, hpool', Nat.add_sub_cancel_left, hcs]
    refine ⟨?_, ?_, ?_, ?_, ?_, ?_, ?_, ?_, ?_, ?_, ?_, ?_⟩
    · rw [hbuf]
    · rw [hbuf, hdcc]
      exact hchunkId
    · rw [hchunksEq, hcslen]
      exact hcount
    · omega
    · rw [hsealed, hchunksEq, hhanded]
      exact List.Perm.refl _
    · rw [hhanded]
      exact hid
    · intro c hc
      rw [hhanded, hcs, List.mem_range'_1] at hc
      refine ChunkHolds.empty fun i _ => ?_
      rw [hdata]
      have hzero : (pool'.chunk c).data = 0 := by
        have hget : pool'.chunks[c]? = some (Chunk.ofIds 0 0 0) := by
          rw [hchunks, List.getElem?_append_right (by omega),
            List.getElem?_replicate_of_lt (by omega)]
        rw [ChunkPool.chunk, List.getD_eq_getElem?_getD, hget]
        rfl
      exact congrFun hzero i
    · intro c
      rfl
    · intro p hp
      cases hp
    · rw [hchunksEq, hbuf]
      simp [contents, inChunk, hs0, hcslen]
    · intro p hp
      cases hp
    · intro p hp
      cases hp

/-! ## Runs -/

/-- A run of `set`, for objects that are stored by a SET or by a DEGRADED_SET. -/
def sets (s : DataServer cfg) (log : SetLog cfg) :
    List (Object cfg × Bool) → Option (DataServer cfg × SetLog cfg)
  | [] => some (s, log)
  | (o, degradedSet) :: ops =>
    match s.set o.key o.payload o.valueSize o.splitOffset degradedSet with
    | none => none
    | some (s, md, _) => sets s (log ++ [(md, o)]) ops

/-- What a run of `set` on a fresh buffer guarantees: `n0` chunks had been taken from the pool and
`used0` were the stripe ids in use when the buffer was made. -/
structure RunSpec (n0 : ℕ) (used0 : List ℕ) (s : DataServer cfg) (log : SetLog cfg) : Prop where
  /-- `sizes[ i ]` is what a scan of the chunk finds, and within the capacity. -/
  sizes : ∀ i < s.buffer.chunks.length,
    s.sizeAt i = getSize cfg s.dataChunkCount (s.pool.chunk (s.chunkAt i)) ∧
      s.sizeAt i ≤ cfg.chunkSize
  /-- A scan of an open chunk enumerates what was stored in it, at the offsets that were
  returned. -/
  scanned : ∀ i < s.buffer.chunks.length,
    scan cfg (fun found offset size => found ++ [(offset, size)])
      (s.pool.chunk (s.chunkAt i)).data cfg.chunkSize 0 [] =
      (inChunk log (s.chunkAt i)).map fun p => (p.1.offset, p.1.length)
  /-- Every object stands where it was stored, with its bytes unchanged. -/
  stored : ∀ p ∈ log, (s.pool.chunk p.1.chunk).data.Holds p.1.offset p.2.bytes
  /-- Every object fits into its chunk. -/
  room : ∀ p ∈ log, p.1.length = p.2.size ∧ p.1.offset + p.1.length ≤ cfg.chunkSize
  /-- Objects in one chunk do not overlap. -/
  disjoint : ∀ c, (inChunk log c).Pairwise fun p q => p.1.offset + p.1.length ≤ q.1.offset
  /-- A chunk of the buffer is open, or it was sealed once. -/
  sealedOnce : (s.sealed ++ s.buffer.chunks).Perm (handedOut n0 s)
  /-- No two chunks got the same ids, and none those of a chunk of before. -/
  ids : ((handedOut n0 s).map fun c => (s.pool.chunk c).metadata).Nodup ∧
    ∀ c ∈ handedOut n0 s, (s.pool.chunk c).stripeId ∉ used0

theorem Inv.runSpec (hi : Inv n0 used0 s log) : RunSpec n0 used0 s log := by
  have hvis : ∀ c, ∀ x ∈ contents log c, x.Visible := fun c x hx => by
    obtain ⟨p, hp, rfl⟩ := contents_subset hx
    exact hi.visible p hp
  have hoffsets : ∀ c, (inChunk log c).map (fun p => (p.1.offset, p.1.length)) =
      (placed 0 (contents log c)).map fun q => (q.1, q.2.size) := by
    intro c
    rw [← hi.offsets, List.map_map]
    refine List.map_congr_left fun p hp => ?_
    simp [hi.lengths p (List.mem_of_mem_filter hp)]
  have hplaced : ∀ p ∈ log, (p.1.offset, p.2) ∈ placed 0 (contents log p.1.chunk) := by
    intro p hp
    rw [← hi.offsets]
    exact List.mem_map_of_mem (f := fun p : KeyMetadata × Object cfg => (p.1.offset, p.2))
      (List.mem_filter.mpr ⟨hp, by simp⟩)
  refine ⟨?_, ?_, ?_, ?_, ?_, hi.perm, ?_, hi.idInv.fresh⟩
  · intro i hlt
    have hmem := hi.chunkAt_mem hlt
    have hnot : isParity s.dataChunkCount (s.pool.chunk (s.chunkAt i)) = false := by
      have hd := hi.isData
      have := Nat.mod_le s.buffer.chunkId (2 ^ 8)
      rw [isParity, (hi.idInv.ids _ hmem).2, decide_eq_false_iff_not]
      omega
    rw [getSize, hnot, if_neg Bool.false_ne_true, (hi.holds _ hmem).dataSize_eq (hvis _),
      ← hi.sizeAt_eq hlt]
    exact ⟨rfl, hi.sizeAt_le i⟩
  · intro i hlt
    have happend : ∀ (l : List (ℕ × Object cfg)) (acc : List (ℕ × ℕ)),
        l.foldl (fun acc p => acc ++ [(p.1, p.2.size)]) acc =
          acc ++ l.map fun q => (q.1, q.2.size) := by
      intro l
      induction l with
      | nil => simp
      | cons q l ih =>
        intro acc
        rw [List.foldl_cons, ih, List.map_cons, List.append_assoc, List.singleton_append]
    rw [(hi.holds _ (hi.chunkAt_mem hlt)).scan_eq _ (hvis _), happend, hoffsets, List.nil_append]
  · intro p hp
    exact holds_placed (hi.holds _ (hi.inPool p hp)).holds (hplaced p hp)
  · intro p hp
    have hbound := (mem_placed_bounds (hplaced p hp)).2
    have hfits := (hi.holds _ (hi.inPool p hp)).fits
    simp only at hbound
    refine ⟨hi.lengths p hp, ?_⟩
    rw [hi.lengths p hp]
    omega
  · intro c
    have hpair := pairwise_placed 0 (contents log c)
    have hmap := (List.pairwise_map (f := fun q : ℕ × Object cfg => (q.1, q.2.size))
      (R := fun a b => a.1 + a.2 ≤ b.1)).mpr hpair
    rw [← hoffsets, List.pairwise_map] at hmap
    exact hmap
  · refine List.Nodup.of_map Metadata.stripeId ?_
    rw [List.map_map]
    exact hi.idInv.distinct

theorem Inv.sets {ops : List (Object cfg × Bool)} {log' : SetLog cfg} (hi : Inv n0 used0 s log)
    (hops : ∀ op ∈ ops, op.1.Visible) (h : s.sets log ops = some (s', log')) :
    Inv n0 used0 s' log' := by
  induction ops generalizing s log with
  | nil =>
    cases h
    exact hi
  | cons op ops ih =>
    rw [DataServer.sets] at h
    cases hset : s.set op.1.key op.1.payload op.1.valueSize op.1.splitOffset op.2 with
    | none => simp [hset] at h
    | some r =>
      obtain ⟨s1, md, sealed⟩ := r
      simp only [hset] at h
      exact ih (hi.set (hops op List.mem_cons_self) hset).1
        (fun x hx => hops x (List.mem_cons_of_mem _ hx)) h

/-- Every run of `set` on a fresh buffer, for objects whose key and value are not both empty and
as long as the pool has chunks. -/
theorem runSpec_sets {dataChunkCount parityChunkCount count listId stripeId chunkId : ℕ}
    {pool : ChunkPool cfg} (hcount : 0 < count) (hstripe : stripeId < 2 ^ 32)
    (hchunkId : chunkId < dataChunkCount) (hused : used0.length ≤ pool.chunks.length)
    (hcreate : create dataChunkCount parityChunkCount pool used0 count listId stripeId chunkId =
      some s)
    {ops : List (Object cfg × Bool)} (hops : ∀ op ∈ ops, op.1.Visible)
    (hrun : s.sets [] ops = some (s', log)) : RunSpec pool.chunks.length used0 s' log :=
  ((Inv.create hcount hstripe hchunkId hused hcreate).sets hops hrun).runSpec

/-! A buffer with one open chunk, in a pool of four. -/

def samplePool : ChunkPool GlobalConfig.smallest where
  total := 4
  chunks := []
  addressable := by simp [GlobalConfig.smallest]
  length_le := by simp

def sampleServer : DataServer GlobalConfig.smallest :=
  (create 1 1 samplePool [] 1 0 0 0).get (by decide)

def sampleOps : List (Object GlobalConfig.smallest × Bool) :=
  [0x61, 0x62, 0x63, 0x64].map fun name => (ChunkHistory.sampleObject name, false)

/-- Three objects fill the first chunk, which is sealed; the fourth goes to the next chunk. -/
theorem runSpec_sets_sample : ∃ s log, sampleServer.sets [] sampleOps = some (s, log) ∧
    s.sealed = [0] ∧ RunSpec 0 [] s log := by
  have hsome : (sampleServer.sets [] sampleOps).isSome = true := by decide
  obtain ⟨⟨s, log⟩, h⟩ := Option.isSome_iff_exists.mp hsome
  have hsealed : (sampleServer.sets [] sampleOps).map (fun r => r.1.sealed) = some [0] := by decide
  rw [h] at hsealed
  exact ⟨s, log, h, Option.some.inj hsealed, runSpec_sets (by decide) (by decide) (by decide)
    le_rfl (Option.some_get _).symm (by decide) h⟩

/-- An object without a key and without a value. -/
def emptyObject : Object GlobalConfig.smallest :=
  .plain [] [] (by simp) (by simp [GlobalConfig.smallest])

/-- An object without a key and without a value takes up four bytes that no scan finds. -/
theorem not_runSpec_of_emptyObject : ¬ ∀ (ops : List (Object GlobalConfig.smallest × Bool))
    (s : DataServer GlobalConfig.smallest) (log : SetLog GlobalConfig.smallest),
    sampleServer.sets [] ops = some (s, log) → RunSpec 0 [] s log := by
  intro hall
  have hsome : (sampleServer.sets [] [(emptyObject, false)]).isSome = true := by decide
  obtain ⟨⟨s, log⟩, h⟩ := Option.isSome_iff_exists.mp hsome
  have hlen : (sampleServer.sets [] [(emptyObject, false)]).map
      (fun r => r.1.buffer.chunks.length) = some 1 := by decide
  rw [h, Option.map_some, Option.some.injEq] at hlen
  have hsize := ((hall _ s log h).sizes 0 (by rw [hlen]; exact Nat.one_pos)).1
  have hne : (sampleServer.sets [] [(emptyObject, false)]).map (fun r => decide (r.1.sizeAt 0 =
      getSize GlobalConfig.smallest r.1.dataChunkCount (r.1.pool.chunk (r.1.chunkAt 0)))) =
      some false := by decide
  rw [h] at hne
  simp [hsize] at hne

end DataServer

end MemEC.Server
