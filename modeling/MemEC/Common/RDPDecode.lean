import MemEC.Common.PrimeCode
import MemEC.Common.Symbols
import MemEC.Lib.Zigzag

/-!
# Decoding RDP

Two lost columns among the data and the row parity are repaired along a zigzag:
a symbol of the one column from its diagonal, then the symbol of the other
column in the same row, whose diagonal gives the next symbol of the first
column. The walk starts at the diagonal of which only one symbol is lost. When
it would come to the diagonal that has no parity symbol it starts once more,
with the two columns exchanged, and as `p` is a prime the two walks together go
through all rows.
-/

namespace MemEC.Common

open MemEC.Lib

variable {cfg : GlobalConfig}

namespace RDPCoding

variable (c : RDPCoding cfg)

/-- `RDPCoding::performXOR`. -/
def performXOR (chunks : ℕ → Memory) (target : ℕ) : ℕ → Memory :=
  if c.k < target then chunks
  else
    Function.update chunks target (((List.range (c.k + 1)).filter (· ≠ target)).foldl
      (fun chunk i => chunk.xorInto 0 (chunks i) 0 cfg.chunkSize) (chunks target))

/-- The local variables of the loop in `RDPCoding::decode`. -/
structure Repair where
  chunkToRRepair : ℕ
  chunkToDRepair : ℕ
  didxToRepair : ℕ
  sidxToRepair : ℕ

/-- The row of the chunk on the diagonal. -/
def Repair.sidx (p didx chunk : ℕ) : ℕ := sub32 (u32 (didx + p)) chunk % p

/-- The walk starts at the diagonal on which the symbol of `r` is in the row that is not there. -/
def Repair.start (p r d : ℕ) : Repair where
  chunkToRRepair := r
  chunkToDRepair := d
  didxToRepair := sub32 r 1
  sidxToRepair := Repair.sidx p (sub32 r 1) d

/-- Search for the next symbol to recover. -/
def Repair.next (p : ℕ) (w : Repair) : Repair :=
  let didxToRepair := (w.chunkToRRepair + w.sidxToRepair) % p
  -- avoid missing diagonal
  if didxToRepair = p - 1 then Repair.start p w.chunkToDRepair w.chunkToRRepair
  else { w with didxToRepair, sidxToRepair := Repair.sidx p didxToRepair w.chunkToDRepair }

/-- The body of the inner loop of `RDPCoding::decode`. -/
def gatherSymbol (w : Repair) (chunks : ℕ → Memory) (cidx : ℕ) : ℕ → Memory :=
  -- skip the symbol to repair in the diagonal direction
  if cidx = w.chunkToDRepair then chunks
  else
    let sidx := (w.didxToRepair + c.p - cidx) % c.p
    let chunks :=
      if sidx ≠ c.p - 1 then c.xorChunks chunks w.chunkToDRepair w.sidxToRepair cidx sidx
      else chunks
    -- skip the symbol to repair in the row direction
    if cidx = w.chunkToRRepair then chunks
    else c.xorChunks chunks w.chunkToRRepair w.sidxToRepair cidx w.sidxToRepair

/-- The two symbols that one iteration of the outer loop recovers. -/
def repairSymbols (w : Repair) (chunks : ℕ → Memory) : ℕ → Memory :=
  let chunks := (List.range (c.k + 1)).foldl (c.gatherSymbol w) chunks
  -- diagonal, XOR the diagonal parity
  let chunks := c.xorChunks chunks w.chunkToDRepair w.sidxToRepair (c.k + 1) w.didxToRepair
  -- row, add back the just recovered symbol from diagonal decoding
  c.xorChunks chunks w.chunkToRRepair w.sidxToRepair w.chunkToDRepair w.sidxToRepair

/-- `n` iterations of the outer loop. -/
def repair : ℕ → Repair → (ℕ → Memory) → ℕ → Memory
  | 0, _, chunks => chunks
  | n + 1, w, chunks => repair n (w.next c.p) (c.repairSymbols w chunks)

/-- `RDPCoding::decode`. -/
def decode (chunks : ℕ → Memory) (bitmap : ℕ → Bool) : Bool × (ℕ → Memory) :=
  let encodeDiagonal := fun chunks : ℕ → Memory =>
    Function.update chunks (c.k + 1) (c.encode chunks (chunks (c.k + 1)) 2 0 0)
  match lostChunks (c.k + 2) bitmap with
  | [] => (false, chunks)
  | [failed] =>
    if failed = c.k + 1 then (true, encodeDiagonal chunks) else (true, c.performXOR chunks failed)
  | [failed₀, failed₁] =>
    if failed₁ = c.k + 1 then (true, encodeDiagonal (c.performXOR chunks failed₀))
    else
      -- zero out the chunks for XOR
      let chunks := Function.update chunks failed₀ ((chunks failed₀).fill 0 cfg.chunkSize 0)
      let chunks := Function.update chunks failed₁ ((chunks failed₁).fill 0 cfg.chunkSize 0)
      -- avoid the missing diagonal
      let w := if failed₀ = 0 then Repair.start c.p failed₁ failed₀
        else Repair.start c.p failed₀ failed₁
      (true, c.repair (c.p - 1) w chunks)
  | _ => (false, chunks)

/-! ## The symbols of the diagonal parity -/

theorem symbol_encodeChunk {x i : ℕ} (hx : x < c.p) (hi : i < c.p - 1) (src parity : Memory) :
    c.symbol i (c.encodeChunk src parity false x 0 0) =
      c.symbol i parity + c.column src ((i + c.p - x) % c.p) := by
  have hloop : ∀ n, c.symbol i ((List.range n).foldl (fun parityChunk sidx =>
      c.encodeSymbol src parityChunk false x sidx 0 0) parity) = c.symbol i parity +
        ∑ s ∈ Finset.range n, if (x + s) % c.p = i then c.symbol s src else 0 := by
    intro n
    induction n with
    | zero => simp
    | succ n ih =>
      rw [List.range_succ, List.foldl_append, List.foldl_cons, List.foldl_nil,
        Finset.sum_range_succ, ← add_assoc, ← ih]
      simp only [encodeSymbol, symbolSpan_false]
      by_cases hmiss : (x + n) % c.p = c.p - 1
      · rw [if_pos hmiss, if_neg (by omega), add_zero]
      · rw [if_neg hmiss, c.symbol_xorSymbol]
        simp only [eq_comm]
  simp only [encodeChunk, Bool.false_and, Bool.false_eq_true, if_false]
  rw [hloop, c.sum_diagonal src hx (by omega)]

theorem symbol_encode_two {i : ℕ} (hk : c.k < c.p) (hi : i < c.p - 1) (data : ℕ → Memory) :
    c.symbol i (c.encode data 0 2 0 0) = ∑ x ∈ Finset.range (c.k + 1),
      c.column (if x < c.k then data x else RAID5Coding.encode cfg (c.k + 1) data 0)
        ((i + c.p - x) % c.p) := by
  have hloop : ∀ n ≤ c.k + 1, c.symbol i ((List.range n).foldl (fun parityChunk cidx =>
      c.encodeChunk (if cidx < c.k then data cidx else RAID5Coding.encode cfg (c.k + 1) data 0)
        parityChunk (0 < rangeSize 0 0 ∧ cidx < c.k) cidx 0 0) 0) =
      ∑ x ∈ Finset.range n,
        c.column (if x < c.k then data x else RAID5Coding.encode cfg (c.k + 1) data 0)
          ((i + c.p - x) % c.p) := by
    intro n hn
    induction n with
    | zero => simp
    | succ n ih =>
      rw [List.range_succ, List.foldl_append, List.foldl_cons, List.foldl_nil,
        Finset.sum_range_succ, ← ih (by omega)]
      simp only [rangeSize_zero, lt_self_iff_false, false_and, decide_false]
      rw [c.symbol_encodeChunk (by omega) hi]
  unfold encode
  rw [if_neg (by norm_num), if_pos rfl]
  exact hloop (c.k + 1) le_rfl

end RDPCoding

end MemEC.Common
