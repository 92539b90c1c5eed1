import MemEC.Common.ChunkUtil

/-!
# What a data chunk holds

`ChunkHolds m objs` relates the data of a chunk to the list of the objects in
it. From it follow what the walk over the headers visits, where `alloc` puts
the next object, and where each object can be found.
-/

namespace MemEC.Common

open MemEC.Lib KeyValue

variable {cfg : GlobalConfig}

/-- The bytes of objects that stand one behind the other. -/
def layout (objs : List (Object cfg)) : List UInt8 := objs.flatMap Object.bytes

/-- The objects with their offsets, the first one at `off`. -/
def placed : ℕ → List (Object cfg) → List (ℕ × Object cfg)
  | _, [] => []
  | off, o :: objs => (off, o) :: placed (off + o.size) objs

@[simp] theorem layout_nil : layout ([] : List (Object cfg)) = [] := rfl

@[simp] theorem layout_cons (o : Object cfg) (objs : List (Object cfg)) :
    layout (o :: objs) = o.bytes ++ layout objs := rfl

theorem layout_append (as bs : List (Object cfg)) : layout (as ++ bs) = layout as ++ layout bs :=
  List.flatMap_append

theorem length_layout_cons (o : Object cfg) (objs : List (Object cfg)) :
    (layout (o :: objs)).length = o.size + (layout objs).length := by
  rw [layout_cons, List.length_append, Object.size]

theorem length_layout_concat (objs : List (Object cfg)) (o : Object cfg) :
    (layout (objs ++ [o])).length = (layout objs).length + o.size := by
  rw [layout_append, List.length_append, length_layout_cons, layout_nil, List.length_nil,
    Nat.add_zero]

@[simp] theorem placed_nil (off : ℕ) : placed off ([] : List (Object cfg)) = [] := rfl

theorem placed_append (off : ℕ) (as bs : List (Object cfg)) :
    placed off (as ++ bs) = placed off as ++ placed (off + (layout as).length) bs := by
  induction as generalizing off with
  | nil => rfl
  | cons o as ih =>
    rw [List.cons_append, placed, placed, ih, length_layout_cons, Nat.add_assoc, List.cons_append]

theorem map_snd_placed (off : ℕ) (objs : List (Object cfg)) :
    (placed off objs).map Prod.snd = objs := by
  induction objs generalizing off with
  | nil => rfl
  | cons o objs ih => rw [placed, List.map_cons, ih]

theorem snd_mem_of_mem_placed {off : ℕ} {objs : List (Object cfg)} {p : ℕ × Object cfg}
    (h : p ∈ placed off objs) : p.2 ∈ objs := by
  rw [← map_snd_placed off objs]
  exact List.mem_map_of_mem h

theorem mem_placed_bounds {off : ℕ} {objs : List (Object cfg)} {p : ℕ × Object cfg}
    (h : p ∈ placed off objs) :
    off ≤ p.1 ∧ p.1 + p.2.size ≤ off + (layout objs).length := by
  induction objs generalizing off with
  | nil => cases h
  | cons o objs ih =>
    rw [length_layout_cons]
    rcases List.mem_cons.mp h with rfl | h
    · exact ⟨le_rfl, by simp only; omega⟩
    · obtain ⟨h1, h2⟩ := ih h
      exact ⟨by omega, by omega⟩

/-- Objects that are placed do not overlap. -/
theorem pairwise_placed (off : ℕ) (objs : List (Object cfg)) :
    (placed off objs).Pairwise fun p q => p.1 + p.2.size ≤ q.1 := by
  induction objs generalizing off with
  | nil => exact List.Pairwise.nil
  | cons o objs ih =>
    refine List.Pairwise.cons (fun q hq => ?_) (ih _)
    exact (mem_placed_bounds hq).1

theorem holds_placed {m : Memory} {off : ℕ} {objs : List (Object cfg)} {p : ℕ × Object cfg}
    (h : m.Holds off (layout objs)) (hp : p ∈ placed off objs) : m.Holds p.1 p.2.bytes := by
  induction objs generalizing off with
  | nil => cases hp
  | cons o objs ih =>
    rw [layout_cons, Memory.holds_append] at h
    rcases List.mem_cons.mp hp with rfl | hp
    · exact h.1
    · exact ih h.2 hp

theorem place_layout (off : ℕ) (objs : List (Object cfg)) :
    Memory.place off (layout objs) =
      ((placed off objs).map fun p => Memory.place p.1 p.2.bytes).sum := by
  induction objs generalizing off with
  | nil => exact Memory.write_nil 0 off
  | cons o objs ih =>
    rw [layout_cons, Memory.place_append, placed, List.map_cons, List.sum_cons, ← ih]
    rfl

/-- An object that the walk over the headers does not take for the end of the objects. -/
def Object.Visible (o : Object cfg) : Prop := o.key ≠ [] ∨ o.valueSize ≠ 0

instance (o : Object cfg) : Decidable o.Visible := inferInstanceAs (Decidable (_ ∨ _))

theorem Object.Visible.lt_size {o : Object cfg} (h : o.Visible) : 4 < o.size := by
  have hs := o.size_eq
  rcases h with hk | hv
  · have := List.length_pos_iff.mpr hk
    omega
  · cases hl : o.isLarge with
    | true =>
      simp only [hl, if_true] at hs
      omega
    | false =>
      have := o.payload_of_plain hl
      omega

/-- Only an object with an empty key and an empty value has the header that marks the end. -/
theorem Object.visible_iff (o : Object cfg) :
    o.Visible ↔ ¬ (o.key.length = 0 ∧ o.valueSize = 0) := by
  rw [Visible, ne_eq, ← List.length_eq_zero_iff]
  omega

theorem length_lt_of_visible {objs : List (Object cfg)} (h : ∀ o ∈ objs, o.Visible) :
    4 * objs.length ≤ (layout objs).length := by
  induction objs with
  | nil => exact le_rfl
  | cons o objs ih =>
    have ho := (h o List.mem_cons_self).lt_size
    have := ih fun x hx => h x (List.mem_cons_of_mem _ hx)
    rw [length_layout_cons, List.length_cons]
    omega

namespace ChunkUtil

/-- The walk over the headers stops at `ptr`. -/
def ScanEnds (cfg : GlobalConfig) (m : Memory) (ptr : ℕ) : Prop :=
  ptr + 4 < cfg.chunkSize → (m ptr).toNat = 0 ∧ m.readBe (ptr + 1) 3 = 0

/-- A header of zeros is the end of the objects. -/
theorem scanEnds_of_zero {m : Memory} {ptr : ℕ} (h : ∀ i, ptr ≤ i → i < ptr + 4 → m i = 0) :
    ScanEnds cfg m ptr := by
  intro _
  have hz : m.Holds (ptr + 1) (beBytes 3 0) := by
    refine Memory.holds_iff.mpr fun j hj => ?_
    have hj3 : j < 3 := hj
    rw [h _ (by omega) (by omega)]
    interval_cases j <;> rfl
  exact ⟨by rw [h ptr le_rfl (by omega)]; rfl, hz.readBe (by norm_num)⟩

theorem scan_of_ends {α : Type} {visit : α → ℕ → ℕ → α} {m : Memory} {ptr fuel : ℕ} {acc : α}
    (h : ScanEnds cfg m ptr) : scan cfg visit m fuel ptr acc = acc := by
  cases fuel with
  | zero => rfl
  | succ fuel =>
    rw [scan]
    split_ifs with hlt
    · obtain ⟨hk, hv⟩ := h hlt
      have hl : LargeObjectUtil.isLarge cfg 0 0 = false := by
        have := cfg.le_chunkSize
        rw [LargeObjectUtil.isLarge_eq_false_iff, u32]
        omega
      simp [deserialize, hk, hv, hl]
    · rfl

/-- What the walk does at the objects can be done after the walk. -/
theorem scan_foldl {α : Type} (visit : α → ℕ → ℕ → α) (m : Memory) (fuel ptr : ℕ)
    (found : List (ℕ × ℕ)) (acc : α) :
    (scan cfg (fun found offset size => found ++ [(offset, size)]) m fuel ptr found).foldl
        (fun acc p => visit acc p.1 p.2) acc =
      scan cfg visit m fuel ptr (found.foldl (fun acc p => visit acc p.1 p.2) acc) := by
  induction fuel generalizing ptr found with
  | zero => rfl
  | succ fuel ih =>
    rw [scan, scan]
    split_ifs with hlt
    · dsimp only
      split_ifs
      · rfl
      · rw [ih, List.foldl_append]
        rfl
    · rfl

/-- The walk visits the objects that stand one behind the other, with their offsets and sizes. -/
theorem scan_layout {α : Type} (visit : α → ℕ → ℕ → α) {m : Memory} {ptr fuel : ℕ} {acc : α}
    {objs : List (Object cfg)} (h : m.Holds ptr (layout objs)) (hv : ∀ o ∈ objs, o.Visible)
    (hfit : ptr + (layout objs).length ≤ cfg.chunkSize)
    (hend : ScanEnds cfg m (ptr + (layout objs).length)) (hfuel : objs.length ≤ fuel) :
    scan cfg visit m fuel ptr acc =
      (placed ptr objs).foldl (fun acc p => visit acc p.1 p.2.size) acc := by
  induction objs generalizing ptr fuel acc with
  | nil => exact scan_of_ends hend
  | cons o objs ih =>
    obtain ⟨fuel, rfl⟩ := Nat.exists_eq_add_one_of_ne_zero
      (show fuel ≠ 0 by rw [List.length_cons] at hfuel; omega)
    rw [layout_cons, Memory.holds_append] at h
    rw [length_layout_cons, ← Nat.add_assoc] at hend hfit
    have ho := hv o List.mem_cons_self
    have hsize := ho.lt_size
    rw [scan, if_pos (by omega)]
    simp only [Object.deserialize_eq h.1]
    rw [if_neg (o.visible_iff.mp ho), o.storedSize_eq]
    exact ih h.2 (fun x hx => hv x (List.mem_cons_of_mem _ hx)) hfit hend
      (Nat.le_of_succ_le_succ hfuel)

/-- The bytes that the objects at the start of a chunk take up. -/
theorem dataSize_layout {m : Memory} {objs : List (Object cfg)} (h : m.Holds 0 (layout objs))
    (hv : ∀ o ∈ objs, o.Visible) (hfit : (layout objs).length ≤ cfg.chunkSize)
    (hend : ScanEnds cfg m (layout objs).length) : dataSize cfg m = (layout objs).length := by
  have hlen := length_lt_of_visible hv
  have hc := cfg.chunkSize_le
  rw [dataSize, scan_layout _ h hv (by omega) (by rwa [Nat.zero_add]) (by omega)]
  -- The running total never wraps, as it is bounded by the size of the chunk.
  suffices hsum : ∀ (off n : ℕ) (os : List (Object cfg)), n + (layout os).length ≤ cfg.chunkSize →
      (placed off os).foldl (fun n p => u32 (n + p.2.size)) n = n + (layout os).length by
    simpa using hsum 0 0 objs (by omega)
  intro off n os
  induction os generalizing off n with
  | nil => intro _; rfl
  | cons o os ih =>
    intro hle
    rw [length_layout_cons] at hle
    rw [placed, List.foldl_cons, length_layout_cons, u32_eq (by simp only; omega),
      ih _ _ (by simp only; omega), Nat.add_assoc]

/-- `next` finds no object at `ptr`. -/
def NextEnds (cfg : GlobalConfig) (m : Memory) (ptr : ℕ) : Prop :=
  ptr + 4 < cfg.chunkSize → m ptr = 0

theorem next_of_ends {m : Memory} {ptr : ℕ} (h : NextEnds cfg m ptr) : next cfg m ptr = none := by
  rw [next]
  split_ifs with hlt
  · have hk : (deserialize cfg m ptr).keySize = 0 := by
      simp only [deserialize, h hlt]
      split_ifs <;> rfl
    simp [hk]
  · rfl

theorem next_of_holds {m : Memory} {ptr : ℕ} {o : Object cfg} (h : m.Holds ptr o.bytes)
    (hk : o.key ≠ []) (hfit : ptr + o.size ≤ cfg.chunkSize) :
    next cfg m ptr = some ⟨ptr + o.size, ptr + 4, o.key.length, o.isLarge⟩ := by
  have hsize := Object.Visible.lt_size (o := o) (Or.inl hk)
  have hlen : o.key.length ≠ 0 := fun h0 => hk (List.length_eq_zero_iff.mp h0)
  rw [next, if_pos (by omega)]
  simp only [Object.deserialize_eq h, if_neg hlen, o.storedSize_eq]
  rfl

/-- `alloc` and the copy behind it come down to one write at the end of the objects. -/
theorem store_eq (m : Memory) (o : Object cfg) :
    store cfg m o = (m.write (dataSize cfg m) o.bytes, dataSize cfg m) := by
  have hle := o.le_size
  have hsz := o.size_le
  have hc := cfg.chunkSize_le
  have hl : LargeObjectUtil.isLarge cfg 0 (sub32 o.size 8) = false := by
    rw [LargeObjectUtil.isLarge_eq_false_iff, sub32, u32, u32]
    omega
  simp only [store, alloc, o.serialize_eq]
  simp only [serialize, hl, setSize, copyUnlessNull, Bool.false_eq_true, if_false]
  rw [Memory.write_write]
  simp only [List.length_cons, length_beBytes]
  rw [Object.size] at hle
  omega

end ChunkUtil

/-- The data holds these objects, from its start and one behind the other, and zeros behind
them. -/
structure ChunkHolds (m : Memory) (objs : List (Object cfg)) : Prop where
  holds : m.Holds 0 (layout objs)
  fits : (layout objs).length ≤ cfg.chunkSize
  zero : ∀ i, (layout objs).length ≤ i → i < cfg.chunkSize → m i = 0

namespace ChunkHolds

variable {m : Memory} {objs : List (Object cfg)}

theorem empty {m : Memory} (h : ∀ i < cfg.chunkSize, m i = 0) :
    ChunkHolds m ([] : List (Object cfg)) :=
  ⟨Memory.holds_nil m 0, Nat.zero_le _, fun i _ hi => h i hi⟩

theorem scanEnds (h : ChunkHolds m objs) : ChunkUtil.ScanEnds cfg m (layout objs).length :=
  fun hlt => ChunkUtil.scanEnds_of_zero (fun i h1 h2 => h.zero i h1 (by omega)) hlt

theorem nextEnds (h : ChunkHolds m objs) :
    ChunkUtil.NextEnds cfg m (layout objs).length :=
  fun hlt => h.zero _ le_rfl (by omega)

theorem scan_eq {α : Type} (visit : α → ℕ → ℕ → α) {acc : α} (h : ChunkHolds m objs)
    (hv : ∀ o ∈ objs, o.Visible) : ChunkUtil.scan cfg visit m cfg.chunkSize 0 acc =
      (placed 0 objs).foldl (fun acc p => visit acc p.1 p.2.size) acc := by
  have hlen := length_lt_of_visible hv
  have hfits := h.fits
  refine ChunkUtil.scan_layout visit h.holds hv (by omega) ?_ (by omega)
  rw [Nat.zero_add]
  exact h.scanEnds

/-- `getSize` of a chunk is the number of bytes that its objects take up. -/
theorem dataSize_eq (h : ChunkHolds m objs) (hv : ∀ o ∈ objs, o.Visible) :
    ChunkUtil.dataSize cfg m = (layout objs).length :=
  ChunkUtil.dataSize_layout h.holds hv h.fits h.scanEnds

/-- A chunk with the objects and nothing else. -/
theorem place (hfit : (layout objs).length ≤ cfg.chunkSize) :
    ChunkHolds (Memory.place 0 (layout objs)) objs :=
  ⟨Memory.holds_write _ _ _, hfit, fun i hi _ => Memory.place_apply_out (.inr (by omega))⟩

/-- Storing one more object, which has to fit behind the others. -/
theorem store (h : ChunkHolds m objs) (hv : ∀ o ∈ objs, o.Visible) {o : Object cfg}
    (hfit : (layout objs).length + o.size ≤ cfg.chunkSize) :
    ChunkHolds (ChunkUtil.store cfg m o).1 (objs ++ [o]) := by
  have hlen := length_layout_concat objs o
  rw [ChunkUtil.store_eq, h.dataSize_eq hv]
  refine ⟨?_, by omega, fun i hi hlt => ?_⟩
  · rw [layout_append, Memory.holds_append, Nat.zero_add, layout_cons, layout_nil, List.append_nil]
    exact ⟨h.holds.write (by omega), Memory.holds_write _ _ _⟩
  · rw [hlen, Object.size] at hi
    exact (Memory.write_apply_out (by omega)).trans (h.zero _ (by omega) hlt)

/-- Storing objects one after the other. -/
theorem storeAll (h : ChunkHolds m objs) {new : List (Object cfg)}
    (hv : ∀ o ∈ objs ++ new, o.Visible) (hfit : (layout (objs ++ new)).length ≤ cfg.chunkSize) :
    ChunkHolds (new.foldl (fun m o => (ChunkUtil.store cfg m o).1) m) (objs ++ new) := by
  induction new generalizing m objs with
  | nil => rwa [List.append_nil]
  | cons o new ih =>
    have hsplit : objs ++ o :: new = objs ++ [o] ++ new := by
      rw [List.append_assoc, List.singleton_append]
    rw [hsplit] at hv hfit ⊢
    refine ih (h.store (fun x hx => hv x ?_) ?_) hv hfit
    · exact List.mem_append_left _ (List.mem_append_left _ hx)
    · rw [layout_append, List.length_append] at hfit
      have hlen := length_layout_concat objs o
      omega

/-- The chunk is the sum of its objects at their places. -/
theorem apply_eq_sum (h : ChunkHolds m objs) {i : ℕ} (hi : i < cfg.chunkSize) :
    m i = ((placed 0 objs).map fun p => Memory.place p.1 p.2.bytes).sum i := by
  rw [← place_layout]
  by_cases hin : i < (layout objs).length
  · have hm := Memory.holds_iff.mp h.holds i hin
    have hp : Memory.place 0 (layout objs) (0 + i) = (layout objs)[i] := Memory.place_apply hin
    rw [Nat.zero_add] at hm hp
    rw [hm, hp]
  · rw [h.zero i (by omega) hi, Memory.place_apply_out (by omega)]

end ChunkHolds

end MemEC.Common
