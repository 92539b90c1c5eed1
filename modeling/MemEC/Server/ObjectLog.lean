import MemEC.Lib.Run
import MemEC.Lib.Slices
import MemEC.Server.DataChunkBufferInvariant

/-!
# The log of the data chunk buffer

The invariant of the data chunk buffer speaks of a log of what was put into the
chunks. An object in the log can be replaced by another one of its size, which is
what an update does, and sealing the open chunks changes no object.
-/

namespace MemEC.Common

open MemEC.Lib KeyValue

variable {cfg : GlobalConfig}

/-! ## The value of an object -/

/-- The object with other bytes in its part of the value. -/
def Object.update (o : Object cfg) (offset : ℕ) (bs : List UInt8) : Object cfg :=
  { o with
    payload := patch o.payload offset bs
    length_payload := (length_patch _ _ _).trans o.length_payload }

namespace Object

variable (o : Object cfg) (offset : ℕ) (bs : List UInt8)

@[simp] theorem update_key : (o.update offset bs).key = o.key := rfl
@[simp] theorem update_valueSize : (o.update offset bs).valueSize = o.valueSize := rfl
@[simp] theorem update_isLarge : (o.update offset bs).isLarge = o.isLarge := rfl
@[simp] theorem update_mapKey : (o.update offset bs).mapKey = o.mapKey := rfl
@[simp] theorem update_header : (o.update offset bs).header = o.header := rfl
@[simp] theorem update_keyBytes : (o.update offset bs).keyBytes = o.keyBytes := rfl

@[simp] theorem update_size : (o.update offset bs).size = o.size := by
  rw [size_eq, size_eq, update_key, update_isLarge]
  exact congrArg _ (length_patch _ _ _)

/-- In the bytes of the object the value starts behind the key. -/
theorem holds_payload {m : Memory} {data : ℕ} (h : m.Holds data o.bytes) :
    m.Holds (data + 4 + o.keyBytes.length) o.payload := by
  rw [bytes, Memory.holds_append, List.length_append, length_header, ← Nat.add_assoc] at h
  exact h.2

end Object

/-- Writing into what a memory holds. -/
theorem write_patch {m : Memory} {off k : ℕ} {as bs : List UInt8} (h : m.Holds off as)
    (hfit : k + bs.length ≤ as.length) : m.write (off + k) bs = m.write off (patch as k bs) := by
  ext i : 1
  by_cases hi : off ≤ i ∧ i < off + as.length
  · obtain ⟨j, rfl⟩ := Nat.exists_eq_add_of_le hi.1
    have hj : j < (patch as k bs).length := by rw [length_patch]; omega
    have hpatch := getElem?_patch as k bs j
    rw [List.getElem?_eq_getElem hj] at hpatch
    rw [Memory.write_apply hj]
    by_cases hin : k ≤ j ∧ j < k + bs.length
    · obtain ⟨n, rfl⟩ := Nat.exists_eq_add_of_le hin.1
      have hn : n < bs.length := by omega
      rw [if_pos (by omega), Nat.add_sub_cancel_left, List.getElem?_eq_getElem hn] at hpatch
      rw [← Nat.add_assoc, Memory.write_apply hn, Option.some.inj hpatch]
    · have hja : j < as.length := by omega
      rw [if_neg (by omega), List.getElem?_eq_getElem hja] at hpatch
      rw [Memory.write_apply_out (by omega), Option.some.inj hpatch, Memory.holds_iff.mp h j hja]
  · rw [Memory.write_apply_out (by omega), Memory.write_apply_out (by rw [length_patch]; omega)]

/-- A write into the value of a stored object gives the updated object. -/
theorem Object.write_value {o : Object cfg} {m : Memory} {data offset : ℕ} {bs : List UInt8}
    (h : m.Holds data o.bytes) (hfit : offset + bs.length ≤ o.payload.length) :
    m.write (data + 4 + o.keyBytes.length + offset) bs =
      m.write data (o.update offset bs).bytes := by
  have hpayload : (o.update offset bs).payload = patch o.payload offset bs := rfl
  have hhead : m.Holds data (o.header ++ o.keyBytes) := by
    rw [bytes, Memory.holds_append] at h
    exact h.1
  have hsame : m.write data (o.header ++ o.keyBytes) = m := by
    have hread : m.write data (m.read data (o.header ++ o.keyBytes).length) = m := by
      rw [← Memory.copy_eq_write]
      ext i : 1
      simp only [Memory.copy]
      split_ifs with hi
      · rw [Nat.sub_add_cancel hi.1]
      · rfl
    rwa [hhead] at hread
  rw [write_patch (o.holds_payload h) hfit, bytes, Memory.write_append, update_header,
    update_keyBytes, hsame, hpayload, List.length_append, length_header, ← Nat.add_assoc]

/-- Putting another object of the same size into the place of one. -/
theorem ChunkHolds.replace {m : Memory} {before after : List (Object cfg)} {o o' : Object cfg}
    (h : ChunkHolds m (before ++ o :: after)) (hsize : o'.size = o.size) :
    ChunkHolds (m.write (layout before).length o'.bytes) (before ++ o' :: after) := by
  have hlength : o'.bytes.length = o.bytes.length := hsize
  have hlayout : (layout (before ++ o' :: after)).length =
      (layout (before ++ o :: after)).length := by
    rw [layout_append, layout_append, layout_cons, layout_cons, List.length_append,
      List.length_append, List.length_append, List.length_append, hlength]
  have hholds := h.holds
  rw [layout_append, Memory.holds_append, layout_cons, Memory.holds_append, Nat.zero_add] at hholds
  refine ⟨?_, hlayout ▸ h.fits, fun i hi hlt => ?_⟩
  · rw [layout_append, Memory.holds_append, layout_cons, Memory.holds_append, Nat.zero_add]
    refine ⟨hholds.1.write (by omega), Memory.holds_write _ _ _, ?_⟩
    rw [hlength]
    exact hholds.2.2.write (by omega)
  · rw [hlayout] at hi
    have hend : (layout before).length + o'.bytes.length ≤ i := by
      rw [layout_append, layout_cons, List.length_append, List.length_append] at hi
      omega
    rw [Memory.write_apply_out (.inr hend)]
    exact h.zero i hi hlt

end MemEC.Common

namespace MemEC.Server

open MemEC.Lib MemEC.Common

variable {cfg : GlobalConfig}

/-- `DataChunkBuffer::seal`. -/
def DataServer.seal (s : DataServer cfg) : Option (DataServer cfg) :=
  tryRun flushAt s (List.range s.buffer.chunks.length)

namespace DataServer

variable {n0 : ℕ} {used0 : List ℕ} {s : DataServer cfg} {log before after : SetLog cfg}
  {p q : KeyMetadata × Object cfg} {md : KeyMetadata} {o o' : Object cfg}

theorem contents_append (as bs : SetLog cfg) (c : ℕ) :
    contents (as ++ bs) c = contents as c ++ contents bs c := by
  rw [contents, inChunk, List.filter_append, List.map_append]
  rfl

theorem contents_cons (p : KeyMetadata × Object cfg) (log : SetLog cfg) (c : ℕ) :
    contents (p :: log) c = if p.1.chunk = c then p.2 :: contents log c else contents log c := by
  rw [contents, inChunk, List.filter_cons]
  split_ifs with h1 h2 h2
  · rfl
  · exact absurd (of_decide_eq_true h1) h2
  · exact absurd (decide_eq_true h2) h1
  · rfl

/-- Every entry of the log is in its chunk, where it was put. -/
theorem Inv.holds_object (hi : Inv n0 used0 s log) (hp : p ∈ log) :
    (s.pool.chunk p.1.chunk).data.Holds p.1.offset p.2.bytes ∧
      p.1.offset + p.2.size ≤ cfg.chunkSize := by
  have hplaced : (p.1.offset, p.2) ∈ placed 0 (contents log p.1.chunk) := by
    rw [← hi.offsets]
    exact List.mem_map_of_mem (f := fun p : KeyMetadata × Object cfg => (p.1.offset, p.2))
      (List.mem_filter.mpr ⟨hp, by simp⟩)
  have hchunk := hi.holds _ (hi.inPool p hp)
  have hend := (mem_placed_bounds hplaced).2
  have hfits := hchunk.fits
  exact ⟨holds_placed hchunk.holds hplaced, by dsimp only at hend; omega⟩

/-- The place of an entry in its chunk is behind the entries before it. -/
theorem Inv.offset_eq (hi : Inv n0 used0 s (before ++ (md, o) :: after)) :
    md.offset = (layout (contents before md.chunk)).length := by
  have h := hi.offsets md.chunk
  rw [contents_append, contents_cons, if_pos rfl, placed_append, placed] at h
  have hsplit : inChunk (before ++ (md, o) :: after) md.chunk =
      inChunk before md.chunk ++ (md, o) :: inChunk after md.chunk := by
    rw [inChunk, List.filter_append, List.filter_cons_of_pos (by simp)]
    rfl
  have hlength : (placed 0 (contents before md.chunk)).length =
      ((inChunk before md.chunk).map fun p => (p.1.offset, p.2)).length := by
    have := congrArg List.length (map_snd_placed 0 (contents before md.chunk))
    rw [List.length_map] at this
    rw [this, contents, List.length_map, List.length_map]
  rw [hsplit, List.map_append, List.map_cons] at h
  have hrest := (List.append_inj h hlength.symm).2
  have hhead := (List.cons.inj hrest).1
  exact (congrArg Prod.fst hhead).trans (Nat.zero_add _)

/-- Two entries of one chunk have different places. -/
theorem Inv.offset_lt (hi : Inv n0 used0 s (before ++ (md, o) :: after)) (hq : q ∈ after)
    (hchunk : q.1.chunk = md.chunk) : md.offset + o.size ≤ q.1.offset := by
  obtain ⟨as, bs, rfl⟩ := List.append_of_mem hq
  have hmd := hi.offset_eq
  have hsplit : before ++ (md, o) :: (as ++ q :: bs) = (before ++ (md, o) :: as) ++ q :: bs := by
    simp
  obtain ⟨md', o'⟩ := q
  rw [hsplit] at hi
  have hqo := hi.offset_eq
  dsimp only at hchunk ⊢
  rw [hchunk, contents_append, contents_cons, if_pos rfl, layout_append, layout_cons,
    List.length_append, List.length_append] at hqo
  have hsize : o.size = o.bytes.length := rfl
  dsimp only at hqo
  omega

theorem mem_middle {a b : KeyMetadata × Object cfg} :
    b ∈ before ++ a :: after ↔ b = a ∨ b ∈ before ++ after := by
  rw [List.perm_middle.mem_iff, List.mem_cons]

/-- No other entry has the place of an entry. -/
theorem Inv.place_ne (hi : Inv n0 used0 s (before ++ (md, o) :: after))
    (hq : q ∈ before ++ after) : ¬(q.1.chunk = md.chunk ∧ q.1.offset = md.offset) := by
  rintro ⟨hchunk, hoffset⟩
  rcases List.mem_append.mp hq with hq | hq
  · obtain ⟨as, bs, rfl⟩ := List.append_of_mem hq
    obtain ⟨md', o'⟩ := q
    rw [List.append_assoc, List.cons_append] at hi
    have hlt := hi.offset_lt (List.mem_append_right bs List.mem_cons_self) hchunk.symm
    have hsize := o'.le_size
    dsimp only at hlt hoffset
    omega
  · have hlt := hi.offset_lt hq hchunk
    have hsize := o.le_size
    omega

/-- Another object of the same size, with the same key and a value of the same size, can be put
into the place of an object. -/
theorem Inv.replace (hi : Inv n0 used0 s (before ++ (md, o) :: after)) (hsize : o'.size = o.size)
    (hvisible : o.Visible → o'.Visible) :
    Inv n0 used0 { s with pool := s.pool.modify md.chunk fun chunk =>
        { chunk with data := chunk.data.write md.offset o'.bytes } }
      (before ++ (md, o') :: after) := by
  set log := before ++ (md, o) :: after with hlog
  set log' := before ++ (md, o') :: after with hlog'
  set s' : DataServer cfg := { s with pool := s.pool.modify md.chunk fun chunk =>
    { chunk with data := chunk.data.write md.offset o'.bytes } } with hs'
  have hmem : (md, o) ∈ log := List.mem_append_right _ List.mem_cons_self
  have hpool : md.chunk < s.pool.chunks.length :=
    ((mem_handedOut hi.le_pool).mp (hi.inPool _ hmem)).2
  have hchunk : ∀ c, s'.pool.chunk c = if c = md.chunk then
      { s.pool.chunk c with data := (s.pool.chunk c).data.write md.offset o'.bytes }
      else s.pool.chunk c := fun c => ChunkPool.chunk_modify hpool _ c
  have hhanded : handedOut n0 s' = handedOut n0 s := by
    rw [handedOut, handedOut, hs', ChunkPool.length_modify]
  have hids : ∀ c, (s'.pool.chunk c).metadata = (s.pool.chunk c).metadata := by
    intro c
    rw [hchunk]
    split_ifs <;> rfl
  have hlist := fun c => congrArg Metadata.listId (hids c)
  have hstripe := fun c => congrArg Metadata.stripeId (hids c)
  have hchunkId := fun c => congrArg Metadata.chunkId (hids c)
  simp only [Chunk.metadata] at hlist hstripe hchunkId
  have hold : ∀ c, contents log c = if md.chunk = c then
      contents before c ++ o :: contents after c else contents before c ++ contents after c := by
    intro c
    rw [hlog, contents_append, contents_cons]
    split_ifs <;> rfl
  have hnew : ∀ c, contents log' c = if md.chunk = c then
      contents before c ++ o' :: contents after c else contents before c ++ contents after c := by
    intro c
    rw [hlog', contents_append, contents_cons]
    split_ifs <;> rfl
  have hlayout : ∀ c, (layout (contents log' c)).length = (layout (contents log c)).length := by
    intro c
    rw [hold, hnew]
    split_ifs
    · rw [layout_append, layout_append, List.length_append, List.length_append, length_layout_cons,
        length_layout_cons, hsize]
    · rfl
  have hentry : ∀ p ∈ log', p = (md, o') ∨ p ∈ log := by
    intro p hp
    rcases List.mem_append.mp hp with hp | hp
    · exact .inr (List.mem_append_left _ hp)
    · rcases List.mem_cons.mp hp with rfl | hp
      · exact .inl rfl
      · exact .inr (List.mem_append_right _ (List.mem_cons_of_mem _ hp))
  refine ⟨hi.noReInserted, hi.isData, hi.count_pos, ?_, ?_, ?_, ?_, ?_, ?_, ?_, ?_, ?_⟩
  · rw [hs', ChunkPool.length_modify]
    exact hi.le_pool
  · rw [hhanded]
    exact hi.perm
  · rw [hhanded]
    refine ⟨fun c hc => ?_, ?_, fun c hc => ?_, fun c hc => ?_, hi.idInv.used, hi.idInv.counter,
      hi.idInv.few⟩
    · rw [hlist, hchunkId]
      exact hi.idInv.ids c hc
    · simp only [hstripe]
      exact hi.idInv.distinct
    · rw [hstripe]
      exact hi.idInv.inUse c hc
    · rw [hstripe]
      exact hi.idInv.fresh c hc
  · rw [hhanded]
    intro c hc
    have hholds := hi.holds c hc
    rw [hchunk, hnew]
    rw [hold] at hholds
    split_ifs at hholds ⊢ with h1 h2
    · subst h1
      rw [hi.offset_eq]
      exact hholds.replace hsize
    · exact absurd h1.symm h2
    · exact absurd (Eq.symm ‹_›) h1
    · exact hholds
  · intro c
    have hplaced := hi.offsets c
    rw [hold] at hplaced
    rw [hnew, hlog', inChunk, List.filter_append, List.filter_cons]
    rw [hlog, inChunk, List.filter_append, List.filter_cons] at hplaced
    by_cases hc : md.chunk = c
    · rw [if_pos (by simpa using hc), if_pos hc, List.map_append, List.map_cons, placed_append,
        placed] at hplaced ⊢
      rw [hsize]
      have hlength : ((before.filter fun p => p.1.chunk = c).map fun p =>
          (p.1.offset, p.2)).length = (placed 0 (contents before c)).length := by
        have hsnd := congrArg List.length (map_snd_placed 0 (contents before c))
        rw [List.length_map] at hsnd
        rw [hsnd, contents, inChunk, List.length_map, List.length_map]
      obtain ⟨hbefore, hrest⟩ := List.append_inj hplaced hlength
      obtain ⟨hhead, hafter⟩ := List.cons.inj hrest
      have hoffset : md.offset = 0 + (layout (contents before c)).length :=
        congrArg Prod.fst hhead
      rw [hbefore, hafter, ← hoffset]
    · rw [if_neg (by simpa using hc), if_neg hc] at hplaced ⊢
      exact hplaced
  · rw [hhanded]
    intro p hp
    rcases hentry p hp with rfl | hp
    · exact hi.inPool (md, o) hmem
    · exact hi.inPool p hp
  · refine hi.sizes.trans (List.map_congr_left fun c _ => (hlayout c).symm)
  · intro p hp
    rcases hentry p hp with rfl | hp
    · exact hvisible (hi.visible (md, o) hmem)
    · exact hi.visible p hp
  · intro p hp
    rcases hentry p hp with rfl | hp
    · exact (hi.lengths (md, o) hmem).trans hsize.symm
    · exact hi.lengths p hp

/-- Sealing the open chunks. -/
theorem Inv.seal (hi : Inv n0 used0 s log) {s' : DataServer cfg} (h : s.seal = some s') :
    Inv n0 used0 s' log := by
  have hsteps : ∀ (is : List ℕ) (s : DataServer cfg), Inv n0 used0 s log →
      (∀ i ∈ is, i < s.buffer.chunks.length) → tryRun DataServer.flushAt s is = some s' →
      Inv n0 used0 s' log := by
    intro is
    induction is with
    | nil =>
      intro s hi _ hrun
      cases hrun
      exact hi
    | cons i is ih =>
      intro s hi hlt hrun
      rw [tryRun_cons] at hrun
      obtain ⟨s₁, hflush, hrest⟩ := Option.bind_eq_some_iff.mp hrun
      have hcount : s₁.buffer.chunks.length = s.buffer.chunks.length := by
        unfold DataServer.flushAt at hflush
        dsimp only at hflush
        split at hflush
        · cases hflush
        · cases hflush
          exact List.length_set
      refine ih s₁ (hi.flushAt (hlt i List.mem_cons_self) hflush).1 (fun j hj => ?_) hrest
      rw [hcount]
      exact hlt j (List.mem_cons_of_mem _ hj)
  exact hsteps _ s hi (fun i hi => List.mem_range.mp hi) h

end DataServer

end MemEC.Server
