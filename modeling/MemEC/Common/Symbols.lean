import MemEC.Common.CodingContract

/-!
# Chunks as columns of symbols

The codes over a prime `p` see a chunk as a column of `p - 1` symbols, with one
more row that is always zero. An XOR of a symbol into a chunk changes one entry
of the table of symbols, the row parity adds up rows, and the other parity adds
up diagonals.
-/

namespace MemEC.Common

open MemEC.Lib

variable {cfg : GlobalConfig}

namespace RDPCoding

variable (c : RDPCoding cfg)

/-- The symbol of a chunk in row `r`. -/
def symbol (r : ℕ) : Memory →+ Memory := Memory.windowHom (r * c.symbolSize) 0 c.symbolSize

/-- The symbol of a chunk in row `r` where there is one, and zero in the row behind them. -/
def column (m : Memory) (r : ℕ) : Memory := if r = c.p - 1 then 0 else c.symbol r m

theorem symbol_apply (r : ℕ) (m : Memory) {j : ℕ} (hj : j < c.symbolSize) :
    c.symbol r m j = m (r * c.symbolSize + j) := by
  simp [symbol, Memory.window, hj, Nat.add_comm]

theorem symbol_eq_iff {r : ℕ} {a b : Memory} : c.symbol r a = c.symbol r b ↔
    ∀ j < c.symbolSize, a (r * c.symbolSize + j) = b (r * c.symbolSize + j) := by
  constructor
  · intro h j hj
    rw [← c.symbol_apply r a hj, ← c.symbol_apply r b hj, h]
  · intro h
    ext j : 1
    by_cases hj : j < c.symbolSize
    · rw [c.symbol_apply r a hj, c.symbol_apply r b hj, h j hj]
    · simp [symbol, Memory.window, hj]

/-- A chunk is its symbols. -/
theorem sameChunk_iff_symbol {a b : Memory} :
    SameChunk cfg a b ↔ ∀ r < c.p - 1, c.symbol r a = c.symbol r b := by
  constructor
  · intro h r hr
    exact c.symbol_eq_iff.mpr fun j hj => h _ (c.symbol_lt hr hj)
  · intro h i hi
    have hpos : 0 < c.symbolSize := by
      apply Nat.pos_of_ne_zero
      intro h0
      have hsymbols := c.symbols
      rw [h0, Nat.mul_zero] at hsymbols
      omega
    have hrow : i / c.symbolSize < c.p - 1 := by
      apply Nat.div_lt_of_lt_mul
      rw [Nat.mul_comm, c.symbols]
      exact hi
    have hbyte := c.symbol_eq_iff.mp (h _ hrow) (i % c.symbolSize) (Nat.mod_lt _ hpos)
    rwa [Nat.mul_comm, Nat.div_add_mod] at hbyte

/-- A moved symbol is found in its new row and nowhere else. -/
theorem symbol_window (r r' s : ℕ) (m : Memory) :
    c.symbol r (Memory.window (s * c.symbolSize) (r' * c.symbolSize) c.symbolSize m) =
      if r = r' then c.symbol s m else 0 := by
  ext j : 1
  by_cases hj : j < c.symbolSize
  · rw [c.symbol_apply _ _ hj]
    split_ifs with h
    · subst h
      rw [c.symbol_apply _ _ hj]
      simp [Memory.window, hj, Nat.add_comm]
    · have hout : ¬ (r' * c.symbolSize ≤ r * c.symbolSize + j ∧
          r * c.symbolSize + j < r' * c.symbolSize + c.symbolSize) := by
        rintro ⟨hlow, hhigh⟩
        rcases Nat.lt_or_gt_of_ne h with hlt | hgt
        · have hmul := Nat.mul_le_mul_right c.symbolSize (Nat.succ_le_of_lt hlt)
          rw [Nat.succ_mul] at hmul
          omega
        · have hmul := Nat.mul_le_mul_right c.symbolSize (Nat.succ_le_of_lt hgt)
          rw [Nat.succ_mul] at hmul
          omega
      simp only [Memory.window, if_neg hout, Memory.zero_apply]
  · split_ifs with h <;> simp [symbol, Memory.window, hj]

theorem symbol_xorSymbol (r r' s : ℕ) (dst src : Memory) :
    c.symbol r (xorSymbol dst (r' * c.symbolSize) src (s * c.symbolSize) (0, c.symbolSize)) =
      c.symbol r dst + if r = r' then c.symbol s src else 0 := by
  unfold xorSymbol
  rw [Memory.xorInto_eq_add, Nat.add_zero, Nat.add_zero, map_add, c.symbol_window]

/-- A loop that XORs chunks adds up their symbols in each row. -/
theorem symbol_foldl_xorInto {r : ℕ} (hr : r < c.p - 1) (n : ℕ) (f : ℕ → Memory) (s : Memory) :
    c.symbol r ((List.range n).foldl (fun s i => s.xorInto 0 (f i) 0 cfg.chunkSize) s) =
      c.symbol r s + ∑ i ∈ Finset.range n, c.symbol r (f i) := by
  induction n with
  | zero => simp
  | succ n ih =>
    have hwindow : c.symbol r (Memory.window 0 0 cfg.chunkSize (f n)) = c.symbol r (f n) := by
      apply c.symbol_eq_iff.mpr
      intro j hj
      simp [Memory.window, c.symbol_lt hr hj]
    rw [List.range_succ, List.foldl_append, List.foldl_cons, List.foldl_nil,
      Memory.xorInto_eq_add, map_add, ih, hwindow, Finset.sum_range_succ, add_assoc]

theorem symbol_rowParity {r : ℕ} (hr : r < c.p - 1) (n : ℕ) (data : ℕ → Memory) :
    c.symbol r (RAID5Coding.encode cfg (n + 1) data 0) =
      ∑ i ∈ Finset.range n, c.symbol r (data i) := by
  unfold RAID5Coding.encode
  rw [Nat.add_sub_cancel, c.symbol_foldl_xorInto hr, map_zero, zero_add]

/-! ## Diagonals -/

/-- A symbol in column `x` and row `s` is on diagonal `i` when it is in this row. -/
theorem diagonal_iff {p x s i : ℕ} (hx : x < p) (hs : s < p) (hi : i < p) :
    (x + s) % p = i ↔ s = (i + p - x) % p := by
  have hsum : (x + s) % p = if x + s < p then x + s else x + s - p := by
    split_ifs with h
    · exact Nat.mod_eq_of_lt h
    · rw [Nat.mod_eq_sub_mod (Nat.not_lt.mp h), Nat.mod_eq_of_lt (by omega)]
  have hdiff : (i + p - x) % p = if i < x then i + p - x else i - x := by
    split_ifs with h
    · exact Nat.mod_eq_of_lt (by omega)
    · rw [Nat.mod_eq_sub_mod (by omega), Nat.mod_eq_of_lt (by omega)]
      omega
  rw [hsum, hdiff]
  split_ifs <;> omega

/-- The symbol of a column on diagonal `i`, as the one with this place among all rows. -/
theorem sum_diagonal (m : Memory) {x i : ℕ} (hx : x < c.p) (hi : i < c.p) :
    (∑ s ∈ Finset.range (c.p - 1), if (x + s) % c.p = i then c.symbol s m else 0) =
      c.column m ((i + c.p - x) % c.p) := by
  have hmod : (i + c.p - x) % c.p < c.p := Nat.mod_lt _ (by omega)
  by_cases hlast : (i + c.p - x) % c.p = c.p - 1
  · rw [column, if_pos hlast]
    apply Finset.sum_eq_zero
    intro s hs
    rw [Finset.mem_range] at hs
    rw [if_neg]
    rw [diagonal_iff hx (by omega) hi, hlast]
    omega
  · rw [column, if_neg hlast, Finset.sum_eq_single ((i + c.p - x) % c.p)]
    · rw [if_pos]
      exact (diagonal_iff hx hmod hi).mpr rfl
    · intro s hs hne
      rw [Finset.mem_range] at hs
      rw [if_neg]
      rwa [diagonal_iff hx (by omega) hi]
    · intro hout
      rw [Finset.mem_range] at hout
      omega

/-! ## The table of symbols -/

/-- An XOR of a symbol of a chunk into a symbol of another one. -/
def xorChunks (chunks : ℕ → Memory) (dst r src s : ℕ) : ℕ → Memory :=
  Function.update chunks dst (xorSymbol (chunks dst) (r * c.symbolSize) (chunks src)
    (s * c.symbolSize) (0, c.symbolSize))

theorem symbol_xorChunks (chunks : ℕ → Memory) (dst r src s i j : ℕ) :
    c.symbol j (c.xorChunks chunks dst r src s i) =
      c.symbol j (chunks i) + if i = dst ∧ j = r then c.symbol s (chunks src) else 0 := by
  unfold xorChunks
  by_cases hi : i = dst
  · subst hi
    rw [Function.update_self, c.symbol_xorSymbol]
    simp only [true_and]
  · rw [Function.update_of_ne hi, if_neg fun h => hi h.1, add_zero]

end RDPCoding

end MemEC.Common
