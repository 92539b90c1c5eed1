import MemEC.Common.ChunkLayout

/-!
# Deleting an object from a chunk

Without a delta buffer a deletion fills the place of the object with zeros, and a
walk over the headers then ends there. With a delta buffer it leaves a header
without a key in front of zeros, so that the walk goes on, but it leaves the last
four bytes of the object as well. It takes the size of the whole value for that
of the part which a split holds.
-/

namespace MemEC.Common

open MemEC.Lib KeyValue

/-- An object that has not been deleted. -/
def Object.Live {cfg : GlobalConfig} (o : Object cfg) : Prop := o.key ≠ []

instance {cfg : GlobalConfig} (o : Object cfg) : Decidable o.Live :=
  inferInstanceAs (Decidable (_ ≠ _))

theorem Object.bytes_plain {cfg : GlobalConfig} {key value : List UInt8} (hk : key.length ≤ 255)
    (hfit : 4 + key.length + value.length ≤ cfg.chunkSize) : (Object.plain key value hk hfit).bytes =
      (UInt8.ofNat key.length :: beBytes 3 value.length) ++ key ++ value := by
  have hplain : (Object.plain key value hk hfit).isLarge = false :=
    LargeObjectUtil.isLarge_of_fits cfg hfit
  rw [Object.bytes, Object.keyBytes, hplain, if_neg Bool.false_ne_true, List.append_nil]
  rfl

variable (cfg : GlobalConfig)

/-- The live ones of objects that stand one behind the other, with their offsets. -/
def livePlaced (off : ℕ) (objs : List (Object cfg)) : List (ℕ × Object cfg) :=
  (placed off objs).filter fun p => p.2.Live

namespace ChunkUtil

/-- The offsets of the objects with a key that a walk over the headers finds. -/
def liveOffsets (m : Memory) : List ℕ :=
  scan cfg (fun offsets ptr _ => if (m ptr).toNat = 0 then offsets else offsets ++ [ptr]) m
    cfg.chunkSize 0 []

variable {cfg} {m m' : Memory} {objs before after : List (Object cfg)} {o : Object cfg}

theorem holds_keySize {ptr : ℕ} (h : m.Holds ptr o.bytes) : (m ptr).toNat = o.key.length := by
  rw [Object.bytes, Memory.holds_append] at h
  exact (Object.holds_header h.1).1

/-- The walk finds the live objects where they stand. -/
theorem liveOffsets_layout (h : m.Holds 0 (layout objs)) (hv : ∀ o ∈ objs, o.Visible)
    (hfit : (layout objs).length ≤ cfg.chunkSize) (hend : ScanEnds cfg m (layout objs).length) :
    liveOffsets cfg m = (livePlaced cfg 0 objs).map Prod.fst := by
  have hlen := length_lt_of_visible hv
  unfold liveOffsets livePlaced
  rw [scan_layout _ h hv (by omega) (by rwa [Nat.zero_add]) (by omega)]
  have hkey : ∀ p ∈ placed 0 objs, (m p.1).toNat = p.2.key.length :=
    fun p hp => holds_keySize (holds_placed h hp)
  generalize placed 0 objs = ps at hkey
  suffices hfold : ∀ acc, ps.foldl (fun offsets p =>
      if (m p.1).toNat = 0 then offsets else offsets ++ [p.1]) acc =
      acc ++ (ps.filter fun p => p.2.Live).map Prod.fst by
    simpa using hfold []
  induction ps with
  | nil => simp
  | cons p ps ih =>
    intro acc
    have ih := ih fun q hq => hkey q (List.mem_cons_of_mem _ hq)
    rw [List.foldl_cons, hkey p List.mem_cons_self, ih]
    by_cases hlive : p.2.Live
    · have hne : p.2.key.length ≠ 0 := fun h0 => hlive (List.length_eq_zero_iff.mp h0)
      rw [if_neg hne, List.filter_cons_of_pos (by simpa using hlive), List.map_cons,
        List.append_assoc, List.singleton_append]
    · have heq : p.2.key.length = 0 := List.length_eq_zero_iff.mpr (not_not.mp hlive)
      rw [if_pos heq, List.filter_cons_of_neg (by simpa using hlive)]

/-! ## What a deletion writes -/

/-- The number of bytes that a deletion covers, as the code takes them. -/
def deletedLength (o : Object cfg) : ℕ := o.key.length + o.valueSize

theorem deleteObject_length_eq {off : ℕ} (h : m.Holds off o.bytes) (delta : Option Memory) :
    (deleteObject cfg m off delta).2.2 = deletedLength o := by
  have hk := o.length_key
  have hv := o.valueSize_lt
  rw [deleteObject_length, Object.deserialize_eq h, u32_eq (by simp only; omega)]
  rfl

theorem deleteObject_none {off : ℕ} (h : m.Holds off o.bytes) :
    (deleteObject cfg m off none).1 = m.fill off (4 + deletedLength o) 0 := by
  rw [← deleteObject_length_eq h none]
  rfl

theorem deleteObject_none_apply {off i : ℕ} (h : m.Holds off o.bytes) :
    (deleteObject cfg m off none).1 i =
      if off ≤ i ∧ i < off + (4 + deletedLength o) then 0 else m i := by
  rw [deleteObject_none h]
  rfl

theorem deleteObject_some_in {delta : Memory} {off j : ℕ} (h : m.Holds off o.bytes)
    (hj : j < deletedLength o) :
    (deleteObject cfg m off (some delta)).1 (off + j) = tombstone (deletedLength o) j := by
  rw [← deleteObject_length_eq h (some delta)] at hj ⊢
  exact deleteObject_some_apply hj

theorem deleteObject_some_out {delta : Memory} {off i : ℕ} (h : m.Holds off o.bytes)
    (hi : i < off ∨ off + deletedLength o ≤ i) :
    (deleteObject cfg m off (some delta)).1 i = m i := by
  rw [← deleteObject_length_eq h (some delta)] at hi
  exact Memory.xorInto_apply_out hi

theorem tombstone_eq (length : ℕ) :
    tombstone length = Memory.place 0 (UInt8.ofNat 0 :: beBytes 3 length) := rfl

theorem tombstone_behind {length j : ℕ} (h : 4 ≤ j) : tombstone length j = 0 := by
  rw [tombstone_eq]
  exact Memory.place_apply_out (.inr (by simpa using h))

theorem holds_tombstone (length : ℕ) :
    (tombstone length).Holds 0 (UInt8.ofNat 0 :: beBytes 3 length) := by
  rw [tombstone_eq]
  exact Memory.holds_write _ _ _

/-- The header that a deletion leaves is all zero when its size is a multiple of `2 ^ 24`. -/
theorem mod_of_tombstone_zero {length : ℕ} (h : ∀ j < 4, tombstone length j = 0) :
    length % 2 ^ 24 = 0 := by
  have hread : (tombstone length).read 1 3 = beBytes 3 length := by
    have hholds := (Memory.holds_cons.mp (holds_tombstone length)).2
    unfold Memory.Holds at hholds
    rwa [length_beBytes] at hholds
  have hzero : (tombstone length).read 1 3 = (0 : Memory).read 1 3 :=
    Memory.read_congr fun i _ hi => h i hi
  have hof := congrArg ofBe (hread.symm.trans hzero)
  rw [ofBe_beBytes_mod] at hof
  exact hof

theorem tombstone_zero_of_mod {length : ℕ} (h : length % 2 ^ 24 = 0) (j : ℕ) :
    tombstone length j = 0 := by
  by_cases hj : j < 4
  · have hbytes : beBytes 3 length = [0, 0, 0] := by
      simp only [beBytes, List.nil_append, List.cons_append, List.cons.injEq, and_true,
        ← UInt8.toNat_inj, UInt8.toNat_ofNat']
      exact ⟨by simp; omega, by simp; omega, by simp; omega⟩
    have hholds := Memory.holds_iff.mp (holds_tombstone length) j (by simpa using hj)
    rw [Nat.zero_add] at hholds
    rw [hholds]
    simp only [hbytes]
    interval_cases j <;> rfl
  · exact tombstone_behind (by omega)

/-- The bytes of the header that a short deletion covers are zero. -/
theorem tombstone_zero_of_lt {length j : ℕ} (hlen : length < 4) (hj : j < length) :
    tombstone length j = 0 := by
  interval_cases length <;> interval_cases j <;> rfl

/-! ## What a deletion leaves of the chunk -/

/-- The live objects other than `o`, with their offsets. -/
def others (before : List (Object cfg)) (o : Object cfg) (after : List (Object cfg)) :
    List (ℕ × Object cfg) :=
  livePlaced cfg 0 before ++ livePlaced cfg ((layout before).length + o.size) after

/-- `m'` is `m` without `o`: the walk finds the other live objects where they stand, the next object
is put behind them, and all other bytes are as before. -/
structure DeletesOnly (m m' : Memory) (before : List (Object cfg)) (o : Object cfg)
    (after : List (Object cfg)) : Prop where
  scan : liveOffsets cfg m' = (others before o after).map Prod.fst
  room : ∀ p ∈ others before o after, p.1 + p.2.size ≤ dataSize cfg m'
  frame : ∀ i, i < (layout before).length ∨ (layout before).length + o.size ≤ i → m' i = m i

/-- Both ways of deleting `o` delete it alone and leave the same chunk, and the delta is the
difference. -/
structure Deletes (m : Memory) (before : List (Object cfg)) (o : Object cfg)
    (after : List (Object cfg)) : Prop where
  plain : DeletesOnly m (deleteObject cfg m (layout before).length none).1 before o after
  withDelta : ∀ delta,
    DeletesOnly m (deleteObject cfg m (layout before).length (some delta)).1 before o after
  same : ∀ delta, ∀ i < cfg.chunkSize, (deleteObject cfg m (layout before).length none).1 i =
    (deleteObject cfg m (layout before).length (some delta)).1 i
  delta : ∀ delta delta', (deleteObject cfg m (layout before).length (some delta)).2.1 =
    some delta' → (deleteObject cfg m (layout before).length (some delta)).1 =
      m.xorInto (layout before).length delta' 0
        (deleteObject cfg m (layout before).length (some delta)).2.2

/-- The objects of a chunk with one of them singled out. -/
structure Holding (m : Memory) (before : List (Object cfg)) (o : Object cfg)
    (after : List (Object cfg)) : Prop where
  chunk : ChunkHolds m (before ++ o :: after)
  visible : ∀ x ∈ before ++ o :: after, x.Visible
  live : o.Live

namespace Holding

theorem holds (h : Holding m before o after) : m.Holds (layout before).length o.bytes := by
  have hholds := h.chunk.holds
  rw [layout_append, layout_cons, Memory.holds_append, Memory.holds_append, Nat.zero_add] at hholds
  exact hholds.2.1

theorem length_layout : (layout (before ++ o :: after)).length =
    (layout before).length + o.size + (layout after).length := by
  rw [layout_append, List.length_append, length_layout_cons, Nat.add_assoc]

theorem fits (h : Holding m before o after) :
    (layout before).length + o.size + (layout after).length ≤ cfg.chunkSize := by
  rw [← length_layout]
  exact h.chunk.fits

/-- The walk ends at the place of the object when its header is all zero. -/
theorem of_zero (h : Holding m before o after)
    (hzero : ∀ i, (layout before).length ≤ i → i < (layout before).length + 4 → m' i = 0)
    (hbefore : ∀ i < (layout before).length, m' i = m i) :
    liveOffsets cfg m' = (livePlaced cfg 0 before).map Prod.fst ∧
      dataSize cfg m' = (layout before).length := by
  have hholds := h.chunk.holds
  rw [layout_append, Memory.holds_append] at hholds
  have hheld : m'.Holds 0 (layout before) :=
    hholds.1.congr fun i _ hi => hbefore i (by rwa [Nat.zero_add] at hi)
  have hv : ∀ x ∈ before, x.Visible := fun x hx => h.visible x (List.mem_append_left _ hx)
  have hfits := h.fits
  have hend : ScanEnds cfg m' (layout before).length := scanEnds_of_zero hzero
  exact ⟨liveOffsets_layout hheld hv (by omega) hend, dataSize_layout hheld hv (by omega) hend⟩

theorem deletesOnly_of_zero (h : Holding m before o after)
    (hzero : ∀ i, (layout before).length ≤ i → i < (layout before).length + 4 → m' i = 0)
    (hframe : ∀ i, i < (layout before).length ∨ (layout before).length + o.size ≤ i → m' i = m i)
    (hlive : ∀ x ∈ after, ¬x.Live) : DeletesOnly m m' before o after := by
  obtain ⟨hscan, hsize⟩ := h.of_zero hzero fun i hi => hframe i (.inl hi)
  have hnone : ∀ off, livePlaced cfg off after = [] := by
    intro off
    unfold livePlaced
    rw [List.filter_eq_nil_iff]
    intro p hp hlp
    exact hlive p.2 (snd_mem_of_mem_placed hp) (by simpa using hlp)
  have hothers : others before o after = livePlaced cfg 0 before := by
    unfold others
    rw [hnone, List.append_nil]
  constructor
  · rw [hothers, hscan]
  · intro p hp
    rw [hothers] at hp
    have hbounds := mem_placed_bounds (List.mem_of_mem_filter hp)
    omega
  · exact hframe

/-- A walk that ends at the place of the object misses the live objects behind it. -/
theorem not_live_of_scan (h : Holding m before o after)
    (hzero : ∀ i, (layout before).length ≤ i → i < (layout before).length + 4 → m' i = 0)
    (hdeletes : DeletesOnly m m' before o after) : ∀ x ∈ after, ¬x.Live := by
  obtain ⟨hscan, -⟩ := h.of_zero hzero fun i hi => hdeletes.frame i (.inl hi)
  have heq := hscan.symm.trans hdeletes.scan
  unfold others at heq
  rw [List.map_append, List.self_eq_append_right, List.map_eq_nil_iff] at heq
  intro x hx hlive
  rw [← map_snd_placed ((layout before).length + o.size) after] at hx
  obtain ⟨p, hp, rfl⟩ := List.mem_map.mp hx
  have hmem : p ∈ livePlaced cfg ((layout before).length + o.size) after :=
    List.mem_filter.mpr ⟨hp, by simpa using hlive⟩
  rw [heq] at hmem
  cases hmem

theorem deletedLength_pos (h : Holding m before o after) : 0 < deletedLength o := by
  have hk := List.length_pos_iff.mpr h.live
  unfold deletedLength
  omega

/-- An object as short as this is stored whole. -/
theorem size_of_short (hlen : deletedLength o < 4) : o.size = 4 + deletedLength o := by
  have hc := cfg.le_chunkSize
  unfold deletedLength at hlen ⊢
  have hplain : o.isLarge = false := by
    rw [← Bool.not_eq_true, o.isLarge_iff]
    omega
  have hpayload := o.payload_of_plain hplain
  rw [o.size_eq, hplain, if_neg Bool.false_ne_true]
  omega

/-- The header and the key of an object in a chunk. -/
theorem header_eq (h : Holding m before o after) :
    m.Holds ((layout before).length + 1) (beBytes 3 o.valueSize) ∧
      m.Holds ((layout before).length + 4) o.key := by
  have hholds := h.holds
  rw [Object.bytes, List.append_assoc, Memory.holds_append, Memory.holds_append,
    Object.length_header, Object.header, Memory.holds_cons, Object.keyBytes,
    Memory.holds_append] at hholds
  exact ⟨hholds.1.2, hholds.2.1.1⟩

/-- A deletion that leaves nothing but zeros, where there are zeros behind the object too. -/
theorem deletes_of_zero (h : Holding m before o after) (hlive : ∀ x ∈ after, ¬x.Live)
    (hbehind : ∀ i, (layout before).length + o.size ≤ i →
      i < (layout before).length + (4 + deletedLength o) → m i = 0)
    (hsome : ∀ delta i, (layout before).length ≤ i →
      i < (layout before).length + (4 + deletedLength o) →
      (deleteObject cfg m (layout before).length (some delta)).1 i = 0) :
    Deletes m before o after := by
  have hsame : ∀ delta i, (deleteObject cfg m (layout before).length none).1 i =
      (deleteObject cfg m (layout before).length (some delta)).1 i := by
    intro delta i
    rw [deleteObject_none_apply h.holds]
    split_ifs with hi
    · exact (hsome delta i hi.1 hi.2).symm
    · exact (deleteObject_some_out h.holds (by omega)).symm
  have hzero : ∀ i, (layout before).length ≤ i → i < (layout before).length + 4 →
      (deleteObject cfg m (layout before).length none).1 i = 0 := by
    intro i h1 h2
    rw [deleteObject_none_apply h.holds, if_pos (by omega)]
  have hframe : ∀ i, i < (layout before).length ∨ (layout before).length + o.size ≤ i →
      (deleteObject cfg m (layout before).length none).1 i = m i := by
    intro i hi
    rw [deleteObject_none_apply h.holds]
    split_ifs with hin
    · exact (hbehind i (by omega) hin.2).symm
    · rfl
  constructor
  · exact h.deletesOnly_of_zero hzero hframe hlive
  · intro delta
    refine h.deletesOnly_of_zero (fun i h1 h2 => ?_) (fun i hi => ?_) hlive
    · rw [← hsame, hzero i h1 h2]
    · rw [← hsame, hframe i hi]
  · exact fun delta i _ => hsame delta i
  · intro delta delta' hdelta
    cases hdelta
    rfl

end Holding

/-- With a delta buffer, the deletion of an object that is stored whole leaves an object without a
key in its place. -/
theorem Holding.deletesOnly_withDelta (h : Holding m before o after) (hplain : o.isLarge = false)
    (hlen : 4 ≤ deletedLength o) (delta : Memory) :
    DeletesOnly m (deleteObject cfg m (layout before).length (some delta)).1 before o after := by
  have hsize : o.size = 4 + deletedLength o := by
    unfold deletedLength
    rw [o.size_eq, hplain, o.payload_of_plain hplain, if_neg Bool.false_ne_true]
    omega
  have hfits := h.fits
  have hin : ∀ j < deletedLength o, (deleteObject cfg m (layout before).length
      (some delta)).1 ((layout before).length + j) = tombstone (deletedLength o) j :=
    fun j hj => deleteObject_some_in h.holds hj
  have hout : ∀ i, i < (layout before).length ∨ (layout before).length + deletedLength o ≤ i →
      (deleteObject cfg m (layout before).length (some delta)).1 i = m i :=
    fun i hi => deleteObject_some_out h.holds hi
  generalize (deleteObject cfg m (layout before).length (some delta)).1 = m' at hin hout ⊢
  have hread := Memory.length_read m' ((layout before).length + 4) (deletedLength o)
  have hfit : 4 + ([] : List UInt8).length +
      (m'.read ((layout before).length + 4) (deletedLength o)).length ≤ cfg.chunkSize := by
    rw [hread, List.length_nil]
    omega
  -- What stands in the place of the object is an object without a key.
  obtain ⟨t, hdead, hseen, hbytes⟩ : ∃ t : Object cfg, ¬t.Live ∧ t.Visible ∧ t.bytes =
      (UInt8.ofNat 0 :: beBytes 3 (deletedLength o)) ++
        m'.read ((layout before).length + 4) (deletedLength o) := by
    refine ⟨Object.plain [] _ (Nat.zero_le _) hfit, fun hlive => hlive rfl, .inr ?_, ?_⟩
    · change (m'.read ((layout before).length + 4) (deletedLength o)).length ≠ 0
      omega
    · rw [Object.bytes_plain, hread, List.append_nil]
      rfl
  have htsize : t.size = o.size := by
    rw [Object.size, hbytes, List.length_append, hread, hsize]
    simp
  have hheld : m'.Holds (layout before).length t.bytes := by
    rw [hbytes, Memory.holds_append]
    constructor
    · rw [Memory.holds_iff]
      intro j hj
      have hj4 : j < 4 := by simpa using hj
      have hheader := Memory.holds_iff.mp (holds_tombstone (deletedLength o)) j hj
      rw [hin j (by omega), ← hheader, Nat.zero_add]
    · exact Memory.holds_read m' _ _
  have hlength : (layout (before ++ t :: after)).length =
      (layout before).length + o.size + (layout after).length := by
    rw [length_layout, htsize]
  have hchunk : ChunkHolds m' (before ++ t :: after) := by
    have hold := h.chunk.holds
    rw [layout_append, layout_cons, Memory.holds_append, Memory.holds_append, Nat.zero_add] at hold
    obtain ⟨hbefore, -, hafter⟩ := hold
    constructor
    · rw [layout_append, layout_cons, Memory.holds_append, Memory.holds_append, Nat.zero_add]
      refine ⟨hbefore.congr fun i _ hi => hout i (by omega), hheld, ?_⟩
      rw [← Object.size] at hafter ⊢
      rw [htsize]
      exact hafter.congr fun i hi _ => hout i (by omega)
    · omega
    · intro i h1 h2
      rw [hout i (by omega)]
      exact h.chunk.zero i (by rw [length_layout]; omega) h2
  have hvisible : ∀ x ∈ before ++ t :: after, x.Visible := by
    intro x hx
    rw [List.mem_append, List.mem_cons] at hx
    rcases hx with hx | rfl | hx
    · exact h.visible x (List.mem_append_left _ hx)
    · exact hseen
    · exact h.visible x (List.mem_append_right _ (List.mem_cons_of_mem _ hx))
  have hothers : livePlaced cfg 0 (before ++ t :: after) = others before o after := by
    unfold livePlaced others livePlaced
    rw [placed_append, List.filter_append, placed, List.filter_cons_of_neg (by simpa using hdead),
      Nat.zero_add, htsize]
  constructor
  · rw [← hothers]
    exact liveOffsets_layout hchunk.holds hvisible hchunk.fits hchunk.scanEnds
  · intro p hp
    rw [← hothers] at hp
    rw [hchunk.dataSize_eq hvisible]
    have hbounds := mem_placed_bounds (List.mem_of_mem_filter hp)
    omega
  · exact fun i hi => hout i (by omega)

/-- Nothing live stands behind the object, and either it has no value and a key of at most three
bytes that are all NUL, or its key and its whole value take `2 ^ 24` bytes, which reach over zeros
to behind the chunk. -/
def Deletable (m : Memory) (before : List (Object cfg)) (o : Object cfg)
    (after : List (Object cfg)) : Prop :=
  (∀ x ∈ after, ¬x.Live) ∧
    ((o.key.length < 4 ∧ o.valueSize = 0 ∧ ∀ b ∈ o.key, b = 0) ∨
      (o.key.length + o.valueSize = 2 ^ 24 ∧ ∀ i, (layout before).length + o.size ≤ i →
        i < (layout before).length + (4 + 2 ^ 24) → m i = 0))

/-- A deletion does what it should in both ways for hardly any object. -/
theorem deletes_iff (h : Holding m before o after) :
    Deletes m before o after ↔ Deletable m before o after := by
  have hpos := h.deletedLength_pos
  have hfits := h.fits
  have hk := o.length_key
  have hv := o.valueSize_lt
  have hsize := Object.Visible.lt_size (.inl h.live : o.Visible)
  obtain ⟨hvalue, hkey⟩ := h.header_eq
  constructor
  · intro hd
    have hzero : ∀ i, (layout before).length ≤ i →
        i < (layout before).length + (4 + deletedLength o) →
        (deleteObject cfg m (layout before).length none).1 i = 0 := by
      intro i h1 h2
      rw [deleteObject_none_apply h.holds, if_pos ⟨h1, h2⟩]
    refine ⟨h.not_live_of_scan (fun i h1 h2 => hzero i h1 (by omega)) hd.plain, ?_⟩
    by_cases hshort : deletedLength o < 4
    · left
      have hsize4 := Holding.size_of_short hshort
      -- What is behind the bytes that the delta covers stays, and the other way clears it.
      have hrest : ∀ j, deletedLength o ≤ j → j < 4 + deletedLength o →
          m ((layout before).length + j) = 0 := by
        intro j h1 h2
        have hsame := hd.same 0 ((layout before).length + j) (by omega)
        rw [hzero _ (by omega) (by omega), deleteObject_some_out h.holds (by omega)] at hsame
        exact hsame.symm
      unfold deletedLength at hshort hrest
      have hempty : o.valueSize = 0 := by
        have hbyte := Memory.holds_iff.mp hvalue 2 (by simp)
        rw [Nat.add_assoc, hrest 3 (by omega) (by omega)] at hbyte
        have hlt : o.valueSize < 4 := by omega
        generalize o.valueSize = v at hbyte hlt
        interval_cases v
        · rfl
        · exact absurd hbyte (by decide)
        · exact absurd hbyte (by decide)
        · exact absurd hbyte (by decide)
      refine ⟨by omega, hempty, fun b hb => ?_⟩
      obtain ⟨k, hlt, rfl⟩ := List.mem_iff_getElem.mp hb
      rw [← Memory.holds_iff.mp hkey k hlt, Nat.add_assoc]
      exact hrest (4 + k) (by omega) (by omega)
    · right
      have hheader : ∀ j < 4, tombstone (deletedLength o) j = 0 := by
        intro j hj
        have hsame := hd.same 0 ((layout before).length + j) (by omega)
        rw [hzero _ (by omega) (by omega), deleteObject_some_in h.holds (by omega)] at hsame
        exact hsame.symm
      have hmod := mod_of_tombstone_zero hheader
      have hlen : deletedLength o = 2 ^ 24 := by
        unfold deletedLength at hmod hshort ⊢
        omega
      refine ⟨hlen, fun i h1 h2 => ?_⟩
      rw [← hd.plain.frame i (.inr h1), hzero i (by omega) (by rwa [hlen])]
  · rintro ⟨hlive, ⟨hlt, hempty, hnul⟩ | ⟨hlen, hbehind⟩⟩
    · have hlen : deletedLength o = o.key.length := by
        unfold deletedLength
        omega
      have hsize4 := Holding.size_of_short (o := o) (by omega)
      refine h.deletes_of_zero hlive (fun i h1 h2 => absurd h2 (by omega)) fun delta i h1 h2 => ?_
      obtain ⟨j, rfl⟩ := Nat.exists_eq_add_of_le h1
      by_cases hj : j < deletedLength o
      · rw [deleteObject_some_in h.holds hj]
        exact tombstone_zero_of_lt (by omega) hj
      · rw [deleteObject_some_out h.holds (by omega)]
        by_cases hj4 : j < 4
        · rw [hempty] at hvalue
          have hbyte := Memory.holds_iff.mp hvalue (j - 1) (by simp; omega)
          have haddr : (layout before).length + 1 + (j - 1) = (layout before).length + j := by omega
          have hzero : ∀ k, (hk : k < (beBytes 3 0).length) → (beBytes 3 0)[k] = 0 := by decide
          rw [haddr] at hbyte
          rw [hbyte, hzero]
        · have hbyte := Memory.holds_iff.mp hkey (j - 4) (by omega)
          have haddr : (layout before).length + 4 + (j - 4) = (layout before).length + j := by omega
          rw [haddr] at hbyte
          rw [hbyte]
          exact hnul _ (List.getElem_mem _)
    · have hlen : deletedLength o = 2 ^ 24 := hlen
      have hc := cfg.chunkSize_le
      refine h.deletes_of_zero hlive (fun i h1 h2 => hbehind i h1 (by rwa [hlen] at h2))
        fun delta i h1 h2 => ?_
      obtain ⟨j, rfl⟩ := Nat.exists_eq_add_of_le h1
      by_cases hj : j < deletedLength o
      · rw [deleteObject_some_in h.holds hj]
        exact tombstone_zero_of_mod (hlen ▸ Nat.mod_self _) j
      · rw [deleteObject_some_out h.holds (by omega)]
        exact hbehind _ (by omega) (by omega)

/-- A chunk with an object whose key is NUL and that has no value. -/
def nulObject : Object .smallest := .plain [0] [] (by decide) (by decide)

theorem deletes_of_nulObject : Deletes (Memory.place 0 (layout [nulObject])) [] nulObject [] := by
  have hholding : Holding (Memory.place 0 (layout [nulObject])) [] nulObject [] :=
    ⟨ChunkHolds.place (by decide), by decide, by decide⟩
  exact (deletes_iff hholding).mpr
    ⟨by decide, .inl ⟨by decide, by decide, fun b hb => List.mem_singleton.mp hb⟩⟩

/-- Two objects of nine and of six bytes. -/
def firstObject : Object .smallest := .plain [107, 101] [118, 97, 108] (by decide) (by decide)

def secondObject : Object .smallest := .plain [108] [119] (by decide) (by decide)

/-- After the first one has been deleted without a delta buffer, the second one is not found. -/
theorem not_deletes_of_firstObject : ¬∀ (cfg : GlobalConfig) (m : Memory)
    (before : List (Object cfg)) (o : Object cfg) (after : List (Object cfg)),
    Holding m before o after → Deletes m before o after := by
  intro h
  have hholding : Holding (Memory.place 0 (layout [firstObject, secondObject])) [] firstObject
      [secondObject] := ⟨ChunkHolds.place (by decide), by decide, by decide⟩
  have hscan := (h _ _ _ _ _ hholding).plain.scan
  exact absurd hscan (by decide +kernel)

end ChunkUtil

end MemEC.Common
