import MemEC.Common.ChunkLayout
import MemEC.Common.CodingContract

/-!
# Mirroring

`RAID1Coding::encode` copies the used part of the data chunk, which the headers
of the objects in it tell. It is also what encodes a change of the data chunk,
and a change does not begin with a header unless it is one of a whole object at
the start of the chunk.
-/

namespace MemEC.Common

open MemEC.Lib KeyValue

namespace RAID1Coding

variable (cfg : GlobalConfig)

/-- `RAID1Coding::encode`, which uses neither the index nor the range. -/
def encode (data : ℕ → Memory) (parity : Memory) : Memory :=
  parity.copy 0 (data 0) 0 (ChunkUtil.dataSize cfg (data 0))

/-- The headers cover all of the chunk that is not zero, and they stay in the chunk. -/
structure Copied (m : Memory) : Prop where
  fits : ChunkUtil.dataSize cfg m ≤ cfg.chunkSize
  rest : ∀ i, ChunkUtil.dataSize cfg m ≤ i → i < cfg.chunkSize → m i = 0

theorem copied_iff (m : Memory) : Copied cfg m ↔ ChunkUtil.dataSize cfg m ≤ cfg.chunkSize ∧
    ((List.range cfg.chunkSize).all fun i =>
      decide (i < ChunkUtil.dataSize cfg m) || m i == 0) = true := by
  simp only [List.all_eq_true, List.mem_range, Bool.or_eq_true, decide_eq_true_eq, beq_iff_eq]
  constructor
  · rintro ⟨hfits, hrest⟩
    exact ⟨hfits, fun i hlt => (Nat.lt_or_ge i _).imp_right fun hi => hrest i hi hlt⟩
  · rintro ⟨hfits, hrest⟩
    exact ⟨hfits, fun i hi hlt => (hrest i hlt).resolve_left (Nat.not_lt.mpr hi)⟩

instance (m : Memory) : Decidable (Copied cfg m) := decidable_of_iff _ (copied_iff cfg m).symm

variable {cfg} {m : Memory}

theorem encode_apply (data : ℕ → Memory) (i : ℕ) :
    encode cfg data 0 i = if i < ChunkUtil.dataSize cfg (data 0) then data 0 i else 0 := by
  simp [encode, Memory.copy]

/-- The mirror of a chunk is the chunk as far as the headers reach. -/
theorem sameChunk_encode_iff (data : ℕ → Memory) : SameChunk cfg (encode cfg data 0) (data 0) ↔
    ∀ i, ChunkUtil.dataSize cfg (data 0) ≤ i → i < cfg.chunkSize → data 0 i = 0 := by
  constructor
  · intro h i hi hlt
    have hbyte := h i hlt
    rw [encode_apply, if_neg (Nat.not_lt.mpr hi)] at hbyte
    exact hbyte.symm
  · intro h i hlt
    rw [encode_apply]
    split_ifs with hi
    · rfl
    · exact (h i (Nat.le_of_not_lt hi) hlt).symm

/-- A chunk with objects from its start on is copied. -/
theorem copied_of_chunkHolds {objs : List (Object cfg)} (h : ChunkHolds m objs)
    (hv : ∀ o ∈ objs, o.Visible) : Copied cfg m := by
  have hsize := h.dataSize_eq hv
  constructor
  · rw [hsize]
    exact h.fits
  · intro i hi hlt
    rw [hsize] at hi
    exact h.zero i hi hlt

/-- Without a header at the start nothing is copied. -/
theorem not_copied_of_gap {i : ℕ} (h : ∀ j < 4, m j = 0) (hi : i < cfg.chunkSize)
    (hne : m i ≠ 0) : ¬Copied cfg m := by
  have hends : ChunkUtil.ScanEnds cfg m 0 :=
    ChunkUtil.scanEnds_of_zero fun j _ hj => h j (by omega)
  have hsize : ChunkUtil.dataSize cfg m = 0 := ChunkUtil.scan_of_ends hends
  intro hcopied
  exact hne (hcopied.rest i (by rw [hsize]; exact Nat.zero_le i) hi)

end RAID1Coding

end MemEC.Common
