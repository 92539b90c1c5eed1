import MemEC.Common.RDPRestore

/-!
# Decoding EVENODD

The diagonal parity has the missing diagonal `S` in each of its symbols, so a
decoder recovers `S` first: from the diagonal next to the lost chunk, or as the
XOR of all symbols of the two parities. With `S` a lost chunk is repaired from
its diagonals, and two lost data chunks along a zigzag as in RDP, which goes
through the missing diagonal, too.
-/

namespace MemEC.Common

open MemEC.Lib

variable {cfg : GlobalConfig}

namespace EvenOddCoding

variable (c : RDPCoding cfg)

/-- A loop over the first `n` chunks that XORs a symbol of each into the symbol `r` of `dst`. -/
def xorSymbols (skip : ℕ → Bool) (row : ℕ → ℕ) (dst r n : ℕ) (chunks : ℕ → Memory) :
    ℕ → Memory :=
  (List.range n).foldl (fun chunks cidx =>
    if skip cidx then chunks else c.xorChunks chunks dst r cidx (row cidx)) chunks

/-- The symbol `s` XOR-ed into the symbol `r` of `dst`. -/
def xorBuffer (chunks : ℕ → Memory) (dst r : ℕ) (s : Memory) : ℕ → Memory :=
  Function.update chunks dst (xorSymbol (chunks dst) (r * c.symbolSize) s 0 (0, c.symbolSize))

/-- `S`, when the row parity is missing: the diagonal that gives `S` directly. -/
def recoverS (failed : ℕ) (chunks : ℕ → Memory) : Memory :=
  let pidx := u32 (sub32 failed 1 + c.p) % c.p
  -- data symbols
  let s := (List.range c.k).foldl (fun s cidx =>
    if cidx = failed then s
    else xorSymbol s 0 (chunks cidx) ((pidx + c.p - cidx) % c.p * c.symbolSize)
      (0, c.symbolSize)) 0
  -- diagonal symbol
  if pidx ≠ c.p - 1 then xorSymbol s 0 (chunks (c.k + 1)) (pidx * c.symbolSize) (0, c.symbolSize)
  else s

/-- A symbol of the lost chunk from its diagonal and `S`. -/
def repairSymbol (failed : ℕ) (s : Memory) (chunks : ℕ → Memory) (sidxToRepair : ℕ) :
    ℕ → Memory :=
  let pidx := (failed + sidxToRepair) % c.p
  let chunks := xorSymbols c
    (fun cidx => cidx = failed || c.p - 2 < (pidx + c.p - cidx) % c.p)
    (fun cidx => (pidx + c.p - cidx) % c.p) failed sidxToRepair c.k chunks
  let chunks :=
    if pidx ≠ c.p - 1 then c.xorChunks chunks failed sidxToRepair (c.k + 1) pidx else chunks
  xorBuffer c chunks failed sidxToRepair s

/-- `S`, when two data chunks are missing: all symbols in `chunks[ k + 1 ]` and `chunks[ k ]`. -/
def xorParities (chunks : ℕ → Memory) : Memory :=
  -- first symbol
  let s := Memory.copy 0 0 (chunks c.k) 0 c.symbolSize
  let s := xorSymbol s 0 (chunks (c.k + 1)) 0 (0, c.symbolSize)
  -- remaining symbols
  (List.range' 1 (c.p - 2)).foldl (fun s sidx =>
    xorSymbol (xorSymbol s 0 (chunks c.k) (sidx * c.symbolSize) (0, c.symbolSize)) 0
      (chunks (c.k + 1)) (sidx * c.symbolSize) (0, c.symbolSize)) s

/-- The diagonal part of an iteration for two data chunks. -/
def repairDiagonal (failed : ℕ) (s : Memory) (pidx sidxToRepair : ℕ) (chunks : ℕ → Memory) :
    ℕ → Memory :=
  -- data symbols
  let chunks := xorSymbols c
    (fun cidx => cidx = failed || (pidx + c.p - cidx) % c.p = sidxToRepair ||
      (pidx + c.p - cidx) % c.p = c.p - 1)
    (fun cidx => (pidx + c.p - cidx) % c.p) failed sidxToRepair c.k chunks
  -- diagonal parity symbols
  let chunks :=
    if pidx ≠ c.p - 1 then c.xorChunks chunks failed sidxToRepair (c.k + 1) pidx else chunks
  xorBuffer c chunks failed sidxToRepair s

/-- One iteration for two data chunks, with the diagonal and the row to repair. -/
def repairSymbols (failed₀ failed₁ : ℕ) (s : Memory) (pidx sidxToRepair : ℕ)
    (chunks : ℕ → Memory) : ℕ → Memory :=
  xorSymbols c (fun cidx => cidx = failed₀) (fun _ => sidxToRepair) failed₀ sidxToRepair
    (c.k + 1) (repairDiagonal c failed₁ s pidx sidxToRepair chunks)

/-- `n` iterations, the first of them at the diagonal `pidx`. -/
def repair (failed₀ failed₁ : ℕ) (s : Memory) : ℕ → ℕ → (ℕ → Memory) → ℕ → Memory
  | 0, _, chunks => chunks
  | n + 1, pidx, chunks =>
    let sidxToRepair := (pidx + c.p - failed₁) % c.p
    repair failed₀ failed₁ s n ((failed₀ + sidxToRepair) % c.p)
      (repairSymbols c failed₀ failed₁ s pidx sidxToRepair chunks)

/-- Zero out the chunks for XOR. -/
def clear (cfg : GlobalConfig) (chunks : ℕ → Memory) (failed : ℕ) : ℕ → Memory :=
  Function.update chunks failed ((chunks failed).fill 0 cfg.chunkSize 0)

/-- `EvenOddCoding::decode`. -/
def decode (chunks : ℕ → Memory) (bitmap : ℕ → Bool) : Bool × (ℕ → Memory) :=
  let encodeInto := fun (index : ℕ) (chunks : ℕ → Memory) =>
    Function.update chunks (c.k + index - 1)
      (encode c chunks (chunks (c.k + index - 1)) index 0 0)
  let decodeRow := fun chunks : ℕ → Memory =>
    (RAID5Coding.decode cfg (c.k + 1) chunks bitmap).2
  match lostChunks (c.k + 2) bitmap with
  | [] => (false, chunks)
  | [failed] =>
    let chunks := clear cfg chunks failed
    if failed = c.k + 1 then (true, encodeInto 2 chunks) else (true, decodeRow chunks)
  | [failed₀, failed₁] =>
    let chunks := clear cfg (clear cfg chunks failed₀) failed₁
    if failed₁ = c.k + 1 then (true, encodeInto 2 (decodeRow chunks))
    else if failed₁ = c.k then
      let s := recoverS c failed₀ chunks
      (true, encodeInto 1 ((List.range (c.p - 1)).foldl (repairSymbol c failed₀ s) chunks))
    else
      (true, repair c failed₀ failed₁ (xorParities c chunks) (c.p - 1)
        (u32 (sub32 failed₀ 1 + c.p) % c.p) chunks)
  | _ => (false, chunks)

/-! ## The symbols of the diagonal parity -/

theorem symbol_xorToBuffer (r : ℕ) (s src : Memory) :
    c.symbol 0 (xorSymbol s 0 src (r * c.symbolSize) (0, c.symbolSize)) =
      c.symbol 0 s + c.symbol r src := by
  have h := c.symbol_xorSymbol 0 0 r s src
  rwa [Nat.zero_mul, if_pos rfl] at h

theorem symbol_xorFromBuffer (r r' : ℕ) (dst s : Memory) :
    c.symbol r (xorSymbol dst (r' * c.symbolSize) s 0 (0, c.symbolSize)) =
      c.symbol r dst + if r = r' then c.symbol 0 s else 0 := by
  have h := c.symbol_xorSymbol r r' 0 dst s
  rwa [Nat.zero_mul] at h

/-- The symbols of the data on diagonal `i`. -/
def diagonalSum (data : ℕ → Memory) (i : ℕ) : Memory :=
  ∑ x ∈ Finset.range c.k, c.column (data x) ((i + c.p - x) % c.p)

/-- The loops of the encoder gather the diagonals, and the missing one in the buffer. -/
theorem symbol_gather (data : ℕ → Memory) {i : ℕ} (hi : i < c.p - 1) :
    ∀ n, let acc := (List.range n).foldl (fun acc sidx => (List.range c.k).foldl (fun acc cidx =>
      encodeSymbol c (data cidx) acc (0 < rangeSize 0 0) cidx sidx 0 0) acc) (0, 0)
    c.symbol i acc.1 = ∑ s ∈ Finset.range n, ∑ x ∈ Finset.range c.k,
        (if (x + s) % c.p = i then c.symbol s (data x) else 0) ∧
      c.symbol 0 acc.2 = ∑ s ∈ Finset.range n, ∑ x ∈ Finset.range c.k,
        (if (x + s) % c.p = c.p - 1 then c.symbol s (data x) else 0) := by
  have hinner : ∀ (s n : ℕ) (acc : Memory × Memory),
      c.symbol i ((List.range n).foldl (fun acc cidx =>
        encodeSymbol c (data cidx) acc (0 < rangeSize 0 0) cidx s 0 0) acc).1 =
        c.symbol i acc.1 + ∑ x ∈ Finset.range n,
          (if (x + s) % c.p = i then c.symbol s (data x) else 0) ∧
      c.symbol 0 ((List.range n).foldl (fun acc cidx =>
        encodeSymbol c (data cidx) acc (0 < rangeSize 0 0) cidx s 0 0) acc).2 =
        c.symbol 0 acc.2 + ∑ x ∈ Finset.range n,
          (if (x + s) % c.p = c.p - 1 then c.symbol s (data x) else 0) := by
    intro s n acc
    induction n with
    | zero => simp
    | succ n ih =>
      rw [List.range_succ, List.foldl_append, List.foldl_cons, List.foldl_nil,
        Finset.sum_range_succ, Finset.sum_range_succ, ← add_assoc, ← add_assoc, ← ih.1, ← ih.2]
      simp only [encodeSymbol, rangeSize_zero, lt_self_iff_false, decide_false, symbolSpan_false]
      by_cases hmiss : (n + s) % c.p = c.p - 1
      · rw [if_pos hmiss, if_neg (by omega), if_pos hmiss, add_zero]
        exact ⟨rfl, symbol_xorToBuffer c s _ _⟩
      · rw [if_neg hmiss, if_neg hmiss, add_zero]
        refine ⟨?_, rfl⟩
        rw [c.symbol_xorSymbol]
        simp only [eq_comm]
  intro n
  induction n with
  | zero => simp
  | succ n ih =>
    dsimp only at ih ⊢
    rw [List.range_succ, List.foldl_append, List.foldl_cons, List.foldl_nil,
      Finset.sum_range_succ, Finset.sum_range_succ, ← ih.1, ← ih.2]
    exact hinner n c.k _

theorem symbol_encode_two (hk : c.k ≤ c.p) {i : ℕ} (hi : i < c.p - 1) (data : ℕ → Memory) :
    c.symbol i (encode c data 0 2 0 0) = diagonalSum c data i + diagonalSum c data (c.p - 1) := by
  have hdiagonal : ∀ i < c.p, (∑ s ∈ Finset.range (c.p - 1), ∑ x ∈ Finset.range c.k,
      if (x + s) % c.p = i then c.symbol s (data x) else 0) = diagonalSum c data i := by
    intro i hi
    rw [Finset.sum_comm]
    apply Finset.sum_congr rfl
    intro x hx
    rw [Finset.mem_range] at hx
    exact c.sum_diagonal (data x) (by omega) hi
  obtain ⟨hfirst, hsecond⟩ := symbol_gather c data hi (c.p - 1)
  rw [hdiagonal i (by omega)] at hfirst
  rw [hdiagonal (c.p - 1) (by omega)] at hsecond
  have hback : ∀ (n : ℕ) (parity s : Memory), c.symbol i ((List.range n).foldl
      (fun parity sidx => parity.xorInto (sidx * c.symbolSize) s 0 c.symbolSize) parity) =
        c.symbol i parity + if i < n then c.symbol 0 s else 0 := by
    intro n parity s
    induction n with
    | zero => simp
    | succ n ih =>
      have hone : c.symbol i (((List.range n).foldl (fun parity sidx =>
          parity.xorInto (sidx * c.symbolSize) s 0 c.symbolSize) parity).xorInto
            (n * c.symbolSize) s 0 c.symbolSize) = _ :=
        symbol_xorFromBuffer c i n _ s
      rw [List.range_succ, List.foldl_append, List.foldl_cons, List.foldl_nil, hone, ih, add_assoc]
      congr 1
      rcases lt_trichotomy i n with hlt | rfl | hgt
      · rw [if_pos hlt, if_neg hlt.ne, if_pos (by omega), add_zero]
      · rw [if_neg (lt_irrefl _), if_pos rfl, if_pos (by omega), zero_add]
      · rw [if_neg (by omega), if_neg hgt.ne', if_neg (by omega), add_zero]
  unfold encode
  rw [if_neg (by norm_num), if_pos rfl]
  dsimp only
  rw [hback, if_pos hi, hfirst, hsecond]

end EvenOddCoding

end MemEC.Common
