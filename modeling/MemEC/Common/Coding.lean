import MemEC.Common.KeyValue
import MemEC.Lib.Accumulate

/-!
# Erasure codes

The encoders of the XOR-based codes. An encoder XORs symbols of the data
chunks into a parity chunk; when it is told the range of the stripe that has
been modified, it only visits the symbols that touch the range.

What an encoder adds to the parity chunk is additive in the data chunks, and
for data that is zero outside the range the range makes no difference. These
two facts are what the update protocol rests on.

`Coding::bitwiseXOR` is `Memory.xorInto` here, as its destination is always one
of its two sources.
-/

namespace MemEC.Common

open MemEC.Lib

variable (cfg : GlobalConfig)

/-- `RAID5Coding::encode`, which uses neither the index nor the range. -/
def RAID5Coding.encode (n : ℕ) (data : ℕ → Memory) (parity : Memory) : Memory :=
  (List.range (n - 1)).foldl (fun parity i => parity.xorInto 0 (data i) 0 cfg.chunkSize) parity

/-- `RDPCoding`, and `EvenOddCoding` which derives from it. A chunk is made of `p - 1` symbols, and
its id in the stripe has 8 bits. -/
structure RDPCoding where
  k : ℕ
  p : ℕ
  symbolSize : ℕ
  symbols : (p - 1) * symbolSize = cfg.chunkSize
  k_le : k ≤ 254

/-- Where the modified range meets the symbol at `symbolOff`: an offset in the symbol and a length.
Without a limit it is the whole symbol. -/
def symbolSpan (limited : Bool) (symbolSize symbolOff startOff endOff : ℕ) : Option (ℕ × ℕ) :=
  if limited && (symbolOff + symbolSize < startOff || endOff < symbolOff) then none
  else
    let offset := if limited then (if symbolOff < startOff then startOff - symbolOff else 0) else 0
    let len := if limited then endOff - (symbolOff + offset) else symbolSize
    some (offset, if symbolSize < len + offset then symbolSize - offset else len)

/-- The part `span` of the symbol of `src` at `srcOff`, XOR-ed into the symbol of `dst` at
`dstOff`. -/
def xorSymbol (dst : Memory) (dstOff : ℕ) (src : Memory) (srcOff : ℕ) (span : ℕ × ℕ) : Memory :=
  dst.xorInto (dstOff + span.1) src (srcOff + span.1) span.2

variable {cfg}

/-- The length of the modified range, with `0` for no limit. -/
def rangeSize (startOff endOff : ℕ) : ℕ := if endOff = 0 then 0 else endOff - startOff

namespace RDPCoding

/-- The body of the inner loop of `RDPCoding::encode`. -/
def encodeSymbol (c : RDPCoding cfg) (src parityChunk : Memory) (limited : Bool)
    (cidx sidx startOff endOff : ℕ) : Memory :=
  let symbolOff := cidx * cfg.chunkSize + sidx * c.symbolSize
  match symbolSpan limited c.symbolSize symbolOff startOff endOff with
  | none => parityChunk
  | some span =>
    let pidx := (cidx + sidx) % c.p
    -- missing diagonal
    if pidx = c.p - 1 then parityChunk
    else xorSymbol parityChunk (pidx * c.symbolSize) src (sidx * c.symbolSize) span

/-- The body of the outer loop of `RDPCoding::encode`. -/
def encodeChunk (c : RDPCoding cfg) (src parityChunk : Memory) (limited : Bool)
    (cidx startOff endOff : ℕ) : Memory :=
  -- skip unmodified chunks
  if limited && ((cidx + 1) * cfg.chunkSize < startOff || endOff < cidx * cfg.chunkSize) then
    parityChunk
  else
    (List.range (c.p - 1)).foldl (fun parityChunk sidx =>
      c.encodeSymbol src parityChunk limited cidx sidx startOff endOff) parityChunk

/-- `RDPCoding::encode`. -/
def encode (c : RDPCoding cfg) (dataChunks : ℕ → Memory) (parityChunk : Memory)
    (index startOff endOff : ℕ) : Memory :=
  if index = 1 then RAID5Coding.encode cfg (c.k + 1) dataChunks parityChunk
  else if index = 2 then
    -- need the row parity for encoding the diagonal parity
    let firstParity := RAID5Coding.encode cfg (c.k + 1) dataChunks 0
    (List.range (c.k + 1)).foldl (fun parityChunk cidx =>
      c.encodeChunk (if cidx < c.k then dataChunks cidx else firstParity) parityChunk
        (0 < rangeSize startOff endOff ∧ cidx < c.k) cidx startOff endOff) parityChunk
  else parityChunk

end RDPCoding

namespace EvenOddCoding

/-- The body of the inner loop of `EvenOddCoding::encode`, with the parity chunk and the symbol `s`
of the missing diagonal. -/
def encodeSymbol (c : RDPCoding cfg) (src : Memory) (acc : Memory × Memory) (limited : Bool)
    (cidx sidx startOff endOff : ℕ) : Memory × Memory :=
  let symbolOff := cidx * cfg.chunkSize + sidx * c.symbolSize
  match symbolSpan limited c.symbolSize symbolOff startOff endOff with
  | none => acc
  | some span =>
    let pidx := (cidx + sidx) % c.p
    if pidx = c.p - 1 then (acc.1, xorSymbol acc.2 0 src (sidx * c.symbolSize) span)
    else (xorSymbol acc.1 (pidx * c.symbolSize) src (sidx * c.symbolSize) span, acc.2)

/-- `EvenOddCoding::encode`. -/
def encode (c : RDPCoding cfg) (dataChunks : ℕ → Memory) (parityChunk : Memory)
    (index startOff endOff : ℕ) : Memory :=
  if index = 1 then RAID5Coding.encode cfg (c.k + 1) dataChunks parityChunk
  else if index = 2 then
    let acc := (List.range (c.p - 1)).foldl (fun acc sidx =>
      (List.range c.k).foldl (fun acc cidx =>
        encodeSymbol c (dataChunks cidx) acc (0 < rangeSize startOff endOff) cidx sidx
          startOff endOff) acc) (parityChunk, 0)
    -- add S back
    (List.range (c.p - 1)).foldl (fun parityChunk sidx =>
      parityChunk.xorInto (sidx * c.symbolSize) acc.2 0 c.symbolSize) acc.1
  else parityChunk

end EvenOddCoding

/-- The codes that are covered here. -/
inductive Coding (cfg : GlobalConfig)
  | raid5 (k : ℕ)
  | rdp (c : RDPCoding cfg)
  | evenOdd (c : RDPCoding cfg)

namespace Coding

/-- The number of data chunks of a stripe. -/
def dataChunkCount : Coding cfg → ℕ
  | raid5 k => k
  | rdp c => c.k
  | evenOdd c => c.k

/-- `Coding::encode`. -/
def encode : Coding cfg → (ℕ → Memory) → Memory → ℕ → ℕ → ℕ → Memory
  | raid5 k, data, parity, _, _, _ => RAID5Coding.encode cfg (k + 1) data parity
  | rdp c, data, parity, index, startOff, endOff => c.encode data parity index startOff endOff
  | evenOdd c, data, parity, index, startOff, endOff =>
    EvenOddCoding.encode c data parity index startOff endOff

end Coding

/-! ## What an encoder adds is additive in the data -/

/-- The data of chunk `i`. -/
def chunkHom (i : ℕ) : (ℕ → Memory) →+ Memory := Pi.evalAddMonoidHom (fun _ => Memory) i

theorem RAID5Coding.accumulates (n : ℕ) :
    Accumulates fun data parity => RAID5Coding.encode cfg n data parity :=
  Accumulates.foldl _ fun i => Accumulates.xorInto (chunkHom i) 0 0 cfg.chunkSize

theorem accumulates_xorSymbol (g : (ℕ → Memory) →+ Memory) (dstOff srcOff : ℕ) (span : ℕ × ℕ) :
    Accumulates fun data dst => xorSymbol dst dstOff (g data) srcOff span :=
  Accumulates.xorInto g _ _ _

namespace RDPCoding

variable (c : RDPCoding cfg)

theorem accumulates_encodeSymbol (g : (ℕ → Memory) →+ Memory) (limited : Bool)
    (cidx sidx startOff endOff : ℕ) : Accumulates fun data parityChunk =>
      c.encodeSymbol (g data) parityChunk limited cidx sidx startOff endOff := by
  simp only [encodeSymbol]
  cases symbolSpan limited c.symbolSize (cidx * cfg.chunkSize + sidx * c.symbolSize) startOff
    endOff with
  | none => exact Accumulates.skip
  | some span =>
    by_cases hmiss : (cidx + sidx) % c.p = c.p - 1
    · simp only [if_pos hmiss]
      exact Accumulates.skip
    · simp only [if_neg hmiss]
      exact accumulates_xorSymbol g _ _ _

theorem accumulates_encodeChunk (g : (ℕ → Memory) →+ Memory) (limited : Bool)
    (cidx startOff endOff : ℕ) : Accumulates fun data parityChunk =>
      c.encodeChunk (g data) parityChunk limited cidx startOff endOff := by
  unfold encodeChunk
  split_ifs with hskip
  · exact Accumulates.skip
  · exact Accumulates.foldl _ fun sidx => c.accumulates_encodeSymbol g _ _ _ _ _

theorem accumulates (index startOff endOff : ℕ) :
    Accumulates fun data parity => c.encode data parity index startOff endOff := by
  unfold encode
  by_cases h1 : index = 1
  · simp only [if_pos h1]
    exact RAID5Coding.accumulates _
  · by_cases h2 : index = 2
    · simp only [if_neg h1, if_pos h2]
      refine Accumulates.foldl _ fun cidx => ?_
      by_cases hk : cidx < c.k
      · simp only [if_pos hk]
        exact c.accumulates_encodeChunk (chunkHom cidx) _ _ _ _
      · simp only [if_neg hk]
        exact c.accumulates_encodeChunk (RAID5Coding.accumulates (c.k + 1)).hom _ _ _ _
    · simp only [if_neg h1, if_neg h2]
      exact Accumulates.skip

end RDPCoding

namespace EvenOddCoding

variable (c : RDPCoding cfg)

theorem accumulates_encodeSymbol (i : ℕ) (limited : Bool) (cidx sidx startOff endOff : ℕ) :
    Accumulates fun data acc =>
      encodeSymbol c (chunkHom i data) acc limited cidx sidx startOff endOff := by
  simp only [encodeSymbol]
  cases symbolSpan limited c.symbolSize (cidx * cfg.chunkSize + sidx * c.symbolSize) startOff
    endOff with
  | none => exact Accumulates.skip
  | some span =>
    by_cases hmiss : (cidx + sidx) % c.p = c.p - 1
    · simp only [if_pos hmiss]
      exact (accumulates_xorSymbol (chunkHom i) _ _ _).snd
    · simp only [if_neg hmiss]
      exact (accumulates_xorSymbol (chunkHom i) _ _ _).fst

theorem accumulates (index startOff endOff : ℕ) :
    Accumulates fun data parity => encode c data parity index startOff endOff := by
  unfold encode
  by_cases h1 : index = 1
  · simp only [if_pos h1]
    exact RAID5Coding.accumulates _
  · by_cases h2 : index = 2
    · simp only [if_neg h1, if_pos h2]
      have hloop : Accumulates fun (data : ℕ → Memory) (acc : Memory × Memory) =>
          (List.range (c.p - 1)).foldl (fun acc sidx => (List.range c.k).foldl (fun acc cidx =>
            encodeSymbol c (data cidx) acc (0 < rangeSize startOff endOff) cidx sidx
              startOff endOff) acc) acc :=
        Accumulates.foldl _ fun sidx => Accumulates.foldl _ fun cidx =>
          accumulates_encodeSymbol c cidx _ _ _ _ _
      have hback : Accumulates fun (s : Memory) (parity : Memory) =>
          (List.range (c.p - 1)).foldl (fun parity sidx =>
            parity.xorInto (sidx * c.symbolSize) s 0 c.symbolSize) parity :=
        Accumulates.foldl _ fun sidx => Accumulates.xorInto (AddMonoidHom.id Memory) _ _ _
      obtain ⟨g, hg⟩ := hloop
      obtain ⟨b, hb⟩ := hback
      -- The parity chunk collects the diagonals and, through `s`, the missing one.
      refine ⟨(AddMonoidHom.fst Memory Memory).comp g +
        b.comp ((AddMonoidHom.snd Memory Memory).comp g), fun data parity => ?_⟩
      simp only [hg, hb, Prod.fst_add, Prod.snd_add, zero_add]
      exact add_assoc _ _ _
    · simp only [if_neg h1, if_neg h2]
      exact Accumulates.skip

end EvenOddCoding

theorem Coding.accumulates (c : Coding cfg) (index startOff endOff : ℕ) :
    Accumulates fun data parity => c.encode data parity index startOff endOff := by
  cases c with
  | raid5 k => exact RAID5Coding.accumulates _
  | rdp c => exact c.accumulates index startOff endOff
  | evenOdd c => exact EvenOddCoding.accumulates c index startOff endOff

/-! ## The range makes no difference for data that is zero outside it -/

/-- The data of a stripe is zero outside the range. -/
def ZeroOutside (cfg : GlobalConfig) (k : ℕ) (data : ℕ → Memory) (startOff endOff : ℕ) : Prop :=
  ∀ cidx < k, ∀ i < cfg.chunkSize,
    (cidx * cfg.chunkSize + i < startOff ∨ endOff ≤ cidx * cfg.chunkSize + i) → data cidx i = 0

@[simp] theorem rangeSize_zero (startOff : ℕ) : rangeSize startOff 0 = 0 := rfl

@[simp] theorem symbolSpan_false (symbolSize symbolOff startOff endOff : ℕ) :
    symbolSpan false symbolSize symbolOff startOff endOff = some (0, symbolSize) := by
  simp [symbolSpan]

theorem symbolSpan_none {symbolSize symbolOff startOff endOff : ℕ}
    (h : symbolSpan true symbolSize symbolOff startOff endOff = none) :
    symbolOff + symbolSize < startOff ∨ endOff < symbolOff := by
  simp only [symbolSpan, Bool.true_and, Bool.or_eq_true, decide_eq_true_eq] at h
  split_ifs at h with hskip
  exact hskip

/-- What is not covered of a symbol lies outside the range. -/
theorem symbolSpan_some {symbolSize symbolOff startOff endOff offset len : ℕ}
    (hle : startOff ≤ endOff)
    (h : symbolSpan true symbolSize symbolOff startOff endOff = some (offset, len)) :
    offset + len ≤ symbolSize ∧ ∀ j < symbolSize, (j < offset ∨ offset + len ≤ j) →
      (symbolOff + j < startOff ∨ endOff ≤ symbolOff + j) := by
  simp only [symbolSpan, Bool.true_and, Bool.or_eq_true, decide_eq_true_eq, if_true] at h
  split_ifs at h with hskip hoff hlen hlen
  all_goals
    rw [Option.some.injEq, Prod.mk.injEq] at h
    obtain ⟨rfl, rfl⟩ := h
    constructor <;> omega

/-- Outside the span the source is zero, so the whole symbol may be XOR-ed. -/
theorem xorSymbol_narrow {dst src : Memory} {dstOff srcOff symbolSize offset len : ℕ}
    (hlen : offset + len ≤ symbolSize)
    (hz : ∀ j < symbolSize, (j < offset ∨ offset + len ≤ j) → src (srcOff + j) = 0) :
    xorSymbol dst dstOff src srcOff (offset, len) =
      xorSymbol dst dstOff src srcOff (0, symbolSize) := by
  unfold xorSymbol
  rw [Memory.xorInto_eq_add, Memory.xorInto_eq_add, Memory.window_narrow hlen hz]
  rfl

theorem xorSymbol_zero {dst src : Memory} {dstOff srcOff symbolSize : ℕ}
    (hz : ∀ j < symbolSize, src (srcOff + j) = 0) :
    xorSymbol dst dstOff src srcOff (0, symbolSize) = dst := by
  have hw : Memory.window (srcOff + 0) (dstOff + 0) symbolSize src = 0 := Memory.window_eq_zero hz
  unfold xorSymbol
  rw [Memory.xorInto_eq_add, hw, add_zero]

namespace RDPCoding

variable (c : RDPCoding cfg) {src : Memory} {startOff endOff cidx sidx : ℕ}

/-- The address of a byte of a symbol in its chunk. -/
theorem symbol_lt (hs : sidx < c.p - 1) {j : ℕ} (hj : j < c.symbolSize) :
    sidx * c.symbolSize + j < cfg.chunkSize := by
  calc sidx * c.symbolSize + j < (sidx + 1) * c.symbolSize := by rw [Nat.succ_mul]; omega
    _ ≤ (c.p - 1) * c.symbolSize := Nat.mul_le_mul_right _ hs
    _ = cfg.chunkSize := c.symbols

/-- The range makes no difference to what is done with a symbol of a chunk that is zero outside
it, when an all-zero part of the symbol makes none. -/
theorem visit_limited {α : Type} (hle : startOff ≤ endOff) (hs : sidx < c.p - 1)
    (hz : ∀ i < cfg.chunkSize, (cidx * cfg.chunkSize + i < startOff ∨
      endOff ≤ cidx * cfg.chunkSize + i) → src i = 0) (skip : α) (visit : ℕ × ℕ → α)
    (hskip : (∀ j < c.symbolSize, src (sidx * c.symbolSize + j) = 0) →
      visit (0, c.symbolSize) = skip)
    (hvisit : ∀ offset len, offset + len ≤ c.symbolSize →
      (∀ j < c.symbolSize, (j < offset ∨ offset + len ≤ j) → src (sidx * c.symbolSize + j) = 0) →
      visit (offset, len) = visit (0, c.symbolSize)) :
    (match symbolSpan true c.symbolSize (cidx * cfg.chunkSize + sidx * c.symbolSize) startOff
      endOff with
      | none => skip
      | some span => visit span) = visit (0, c.symbolSize) := by
  split
  next hspan =>
    have hout := symbolSpan_none hspan
    refine (hskip fun j hj => hz _ (c.symbol_lt hs hj) ?_).symm
    omega
  next span hspan =>
    obtain ⟨hlen, hout⟩ := symbolSpan_some hle hspan
    refine hvisit span.1 span.2 hlen fun j hj hj' => hz _ (c.symbol_lt hs hj) ?_
    have := hout j hj hj'
    omega

theorem encodeSymbol_limited (hle : startOff ≤ endOff) (hs : sidx < c.p - 1)
    (hz : ∀ i < cfg.chunkSize, (cidx * cfg.chunkSize + i < startOff ∨
      endOff ≤ cidx * cfg.chunkSize + i) → src i = 0) (parity : Memory) (s e : ℕ) :
    c.encodeSymbol src parity true cidx sidx startOff endOff =
      c.encodeSymbol src parity false cidx sidx s e := by
  simp only [encodeSymbol, symbolSpan_false]
  refine c.visit_limited hle hs hz _ _ (fun hzero => ?_) fun offset len hlen hzero => ?_
  · split_ifs
    · rfl
    · exact xorSymbol_zero hzero
  · split_ifs
    · rfl
    · exact xorSymbol_narrow hlen hzero

theorem encodeSymbol_zero (hs : sidx < c.p - 1) (hz : ∀ i < cfg.chunkSize, src i = 0)
    (parity : Memory) (s e : ℕ) : c.encodeSymbol src parity false cidx sidx s e = parity := by
  simp only [encodeSymbol, symbolSpan_false]
  split_ifs
  · rfl
  · exact xorSymbol_zero fun j hj => hz _ (c.symbol_lt hs hj)

/-- Without a limit the range is not used. -/
theorem encodeChunk_range (src parity : Memory) (cidx startOff endOff s e : ℕ) :
    c.encodeChunk src parity false cidx startOff endOff =
      c.encodeChunk src parity false cidx s e := by
  simp only [encodeChunk, encodeSymbol, symbolSpan_false, Bool.false_and, Bool.false_eq_true,
    if_false]

theorem encodeChunk_zero (hz : ∀ i < cfg.chunkSize, src i = 0) (parity : Memory) (s e : ℕ) :
    c.encodeChunk src parity false cidx s e = parity := by
  simp only [encodeChunk, Bool.false_and, Bool.false_eq_true, if_false]
  refine (List.foldl_ext _ (fun m _ => m) _ fun m sidx hs => ?_).trans (List.foldl_fixed _)
  exact c.encodeSymbol_zero (List.mem_range.mp hs) hz m s e

theorem encodeChunk_limited (hle : startOff ≤ endOff)
    (hz : ∀ i < cfg.chunkSize, (cidx * cfg.chunkSize + i < startOff ∨
      endOff ≤ cidx * cfg.chunkSize + i) → src i = 0) (parity : Memory) (s e : ℕ) :
    c.encodeChunk src parity true cidx startOff endOff =
      c.encodeChunk src parity false cidx s e := by
  by_cases hskip : (cidx + 1) * cfg.chunkSize < startOff ∨ endOff < cidx * cfg.chunkSize
  · rw [Nat.succ_mul] at hskip
    have hzero : ∀ i < cfg.chunkSize, src i = 0 := fun i hi => hz i hi (by omega)
    rw [c.encodeChunk_zero hzero, encodeChunk, Nat.succ_mul, if_pos]
    simpa using hskip
  · simp only [encodeChunk, Bool.true_and, Bool.false_and, Bool.false_eq_true, if_false,
      Bool.or_eq_true, decide_eq_true_eq, if_neg hskip]
    refine List.foldl_ext _ _ _ fun parity sidx hs => ?_
    exact c.encodeSymbol_limited hle (List.mem_range.mp hs) hz parity s e

theorem encode_limited {data : ℕ → Memory} (hle : startOff ≤ endOff)
    (hz : ZeroOutside cfg c.k data startOff endOff) (parity : Memory) (index : ℕ) :
    c.encode data parity index startOff endOff = c.encode data parity index 0 0 := by
  simp only [encode]
  split_ifs with h1 h2
  · rfl
  · refine List.foldl_ext _ _ _ fun parity cidx _ => ?_
    by_cases hk : cidx < c.k
    · by_cases hsize : 0 < rangeSize startOff endOff
      · simp only [hk, hsize, rangeSize_zero, and_true, if_true, lt_self_iff_false, decide_true,
          decide_false]
        exact c.encodeChunk_limited hle (hz cidx hk) parity 0 0
      · simp only [hsize, rangeSize_zero, false_and, lt_self_iff_false, decide_false]
        exact c.encodeChunk_range _ _ _ _ _ _ _
    · simp only [hk, and_false, decide_false]
      exact c.encodeChunk_range _ _ _ _ _ _ _
  · rfl

end RDPCoding

namespace EvenOddCoding

variable (c : RDPCoding cfg) {src : Memory} {startOff endOff cidx sidx : ℕ}

theorem encodeSymbol_limited (hle : startOff ≤ endOff) (hs : sidx < c.p - 1)
    (hz : ∀ i < cfg.chunkSize, (cidx * cfg.chunkSize + i < startOff ∨
      endOff ≤ cidx * cfg.chunkSize + i) → src i = 0) (acc : Memory × Memory) (s e : ℕ) :
    encodeSymbol c src acc true cidx sidx startOff endOff =
      encodeSymbol c src acc false cidx sidx s e := by
  simp only [encodeSymbol, symbolSpan_false]
  refine c.visit_limited hle hs hz _ _ (fun hzero => ?_) fun offset len hlen hzero => ?_
  · split_ifs
    · rw [xorSymbol_zero hzero]
    · rw [xorSymbol_zero hzero]
  · split_ifs
    · rw [xorSymbol_narrow hlen hzero]
    · rw [xorSymbol_narrow hlen hzero]

theorem encode_limited {data : ℕ → Memory} (hle : startOff ≤ endOff)
    (hz : ZeroOutside cfg c.k data startOff endOff) (parity : Memory) (index : ℕ) :
    encode c data parity index startOff endOff = encode c data parity index 0 0 := by
  have hloop : ∀ acc : Memory × Memory, (List.range (c.p - 1)).foldl (fun acc sidx =>
      (List.range c.k).foldl (fun acc cidx => encodeSymbol c (data cidx) acc
        (0 < rangeSize startOff endOff) cidx sidx startOff endOff) acc) acc =
      (List.range (c.p - 1)).foldl (fun acc sidx => (List.range c.k).foldl (fun acc cidx =>
        encodeSymbol c (data cidx) acc (0 < rangeSize 0 0) cidx sidx 0 0) acc) acc := by
    intro acc
    refine List.foldl_ext _ _ _ fun acc sidx hs => List.foldl_ext _ _ _ fun acc cidx hk => ?_
    by_cases hsize : 0 < rangeSize startOff endOff
    · simp only [hsize, rangeSize_zero, lt_self_iff_false, decide_true, decide_false]
      exact encodeSymbol_limited c hle (List.mem_range.mp hs) (hz cidx (List.mem_range.mp hk)) _ _ _
    · simp only [hsize, rangeSize_zero, lt_self_iff_false, decide_false, encodeSymbol,
        symbolSpan_false]
  simp only [encode, hloop]

end EvenOddCoding

namespace Coding

variable (c : Coding cfg)

theorem encode_limited {data : ℕ → Memory} {startOff endOff : ℕ} (hle : startOff ≤ endOff)
    (hz : ZeroOutside cfg c.dataChunkCount data startOff endOff) (parity : Memory) (index : ℕ) :
    c.encode data parity index startOff endOff = c.encode data parity index 0 0 := by
  cases c with
  | raid5 k => rfl
  | rdp c => exact c.encode_limited hle hz parity index
  | evenOdd c => exact EvenOddCoding.encode_limited c hle hz parity index

end Coding

/-! ## An encoder reads the chunks and nothing behind them -/

section Congr

variable {data data' : ℕ → Memory}

theorem RAID5Coding.encode_congr {k : ℕ}
    (h : ∀ cidx < k, ∀ i < cfg.chunkSize, data cidx i = data' cidx i) (parity : Memory) :
    encode cfg (k + 1) data parity = encode cfg (k + 1) data' parity := by
  refine List.foldl_ext _ _ _ fun parity i hi => Memory.xorInto_congr (fun j hj => ?_) _ _
  rw [Nat.zero_add]
  exact h i (List.mem_range.mp hi) j hj

theorem xorSymbol_congr (c : RDPCoding cfg) {src src' : Memory} {sidx : ℕ} (hs : sidx < c.p - 1)
    (h : ∀ i < cfg.chunkSize, src i = src' i) (dst : Memory) (dstOff : ℕ) :
    xorSymbol dst dstOff src (sidx * c.symbolSize) (0, c.symbolSize) =
      xorSymbol dst dstOff src' (sidx * c.symbolSize) (0, c.symbolSize) :=
  Memory.xorInto_congr (fun _ hj => h _ (c.symbol_lt hs hj)) _ _

theorem RDPCoding.encodeChunk_congr (c : RDPCoding cfg) {src src' : Memory}
    (h : ∀ i < cfg.chunkSize, src i = src' i) (parity : Memory) (cidx : ℕ) :
    c.encodeChunk src parity false cidx 0 0 = c.encodeChunk src' parity false cidx 0 0 := by
  simp only [encodeChunk, Bool.false_and, Bool.false_eq_true, if_false]
  refine List.foldl_ext _ _ _ fun parity sidx hs => ?_
  simp only [encodeSymbol, symbolSpan_false, xorSymbol_congr c (List.mem_range.mp hs) h]

theorem RDPCoding.encode_congr (c : RDPCoding cfg)
    (h : ∀ cidx < c.k, ∀ i < cfg.chunkSize, data cidx i = data' cidx i) (parity : Memory)
    (index : ℕ) : c.encode data parity index 0 0 = c.encode data' parity index 0 0 := by
  simp only [encode, RAID5Coding.encode_congr h, rangeSize_zero, lt_self_iff_false, false_and,
    decide_false]
  split_ifs with h1 h2
  · rfl
  · refine List.foldl_ext _ _ _ fun parity cidx _ => ?_
    split_ifs with hk
    · exact c.encodeChunk_congr (h cidx hk) parity cidx
    · rfl
  · rfl

theorem EvenOddCoding.encode_congr (c : RDPCoding cfg)
    (h : ∀ cidx < c.k, ∀ i < cfg.chunkSize, data cidx i = data' cidx i) (parity : Memory)
    (index : ℕ) : encode c data parity index 0 0 = encode c data' parity index 0 0 := by
  have hloop : ∀ acc : Memory × Memory, (List.range (c.p - 1)).foldl (fun acc sidx =>
      (List.range c.k).foldl (fun acc cidx =>
        encodeSymbol c (data cidx) acc (0 < rangeSize 0 0) cidx sidx 0 0) acc) acc =
      (List.range (c.p - 1)).foldl (fun acc sidx => (List.range c.k).foldl (fun acc cidx =>
        encodeSymbol c (data' cidx) acc (0 < rangeSize 0 0) cidx sidx 0 0) acc) acc := by
    intro acc
    refine List.foldl_ext _ _ _ fun acc sidx hs => List.foldl_ext _ _ _ fun acc cidx hk => ?_
    have hsrc := h cidx (List.mem_range.mp hk)
    simp only [rangeSize_zero, lt_self_iff_false, decide_false, encodeSymbol, symbolSpan_false,
      xorSymbol_congr c (List.mem_range.mp hs) hsrc]
  simp only [encode, RAID5Coding.encode_congr h, hloop]

theorem Coding.encode_congr (c : Coding cfg)
    (h : ∀ cidx < c.dataChunkCount, ∀ i < cfg.chunkSize, data cidx i = data' cidx i)
    (parity : Memory) (index : ℕ) :
    c.encode data parity index 0 0 = c.encode data' parity index 0 0 := by
  cases c with
  | raid5 k => exact RAID5Coding.encode_congr h parity
  | rdp c => exact c.encode_congr h parity index
  | evenOdd c => exact EvenOddCoding.encode_congr c h parity index

end Congr

/-! ## The parity of a stripe -/

namespace Coding

variable (c : Coding cfg)

/-- The parity chunk with this index of a stripe with this data. -/
def parity (index : ℕ) : (ℕ → Memory) →+ Memory := (c.accumulates index 0 0).hom

/-- Encoding a change of the stripe adds the parity of the change. -/
theorem encode_eq_add {data : ℕ → Memory} {startOff endOff : ℕ} (hle : startOff ≤ endOff)
    (hz : ZeroOutside cfg c.dataChunkCount data startOff endOff) (parity : Memory) (index : ℕ) :
    c.encode data parity index startOff endOff = parity + c.parity index data := by
  rw [c.encode_limited hle hz]
  exact (c.accumulates index 0 0).eq_add data parity

theorem parity_congr {data data' : ℕ → Memory} (index : ℕ)
    (h : ∀ cidx < c.dataChunkCount, ∀ i < cfg.chunkSize, data cidx i = data' cidx i) :
    c.parity index data = c.parity index data' := c.encode_congr h 0 index

/-- The parity of a stripe in which only chunk `cidx` is not zero. -/
def parityOf (index cidx : ℕ) : Memory →+ Memory :=
  (c.parity index).comp (AddMonoidHom.single (fun _ : ℕ => Memory) cidx)

theorem parity_single (index cidx : ℕ) (m : Memory) :
    c.parity index (Pi.single cidx m) = c.parityOf index cidx m := rfl

/-- A change of a part of one chunk, with the range as `uint32_t` arithmetic gives it. -/
theorem encode_single {cidx offset size : ℕ} {m : Memory} (hk : cidx < c.dataChunkCount)
    (hoff : offset ≤ cfg.chunkSize) (hsize : size < 2 ^ 24 + 259)
    (hz : ∀ i < cfg.chunkSize, (i < offset ∨ offset + size ≤ i) → m i = 0) (index : ℕ) :
    c.encode (Pi.single cidx m) 0 index (u32 (offset + cidx * cfg.chunkSize))
      (u32 (u32 (offset + cidx * cfg.chunkSize) + size)) = c.parityOf index cidx m := by
  have hzero : ∀ s e, s = offset + cidx * cfg.chunkSize → e = s + size →
      ZeroOutside cfg c.dataChunkCount (Pi.single cidx m) s e := by
    rintro s e rfl rfl j - i hi hout
    by_cases hj : j = cidx
    · subst hj
      rw [Pi.single_eq_same]
      exact hz i hi (by omega)
    · rw [Pi.single_eq_of_ne hj]
      rfl
  have hwrap : ∀ k, k ≤ 254 → cidx < k → offset + cidx * cfg.chunkSize + size < 2 ^ 32 := by
    intro k hk254 hlt
    have hc := cfg.chunkSize_le
    have hmul : cidx * cfg.chunkSize ≤ 253 * cfg.chunkSize := Nat.mul_le_mul_right _ (by omega)
    omega
  have hrange : ∀ k, k ≤ 254 → cidx < k →
      c.encode (Pi.single cidx m) 0 index (u32 (offset + cidx * cfg.chunkSize))
        (u32 (u32 (offset + cidx * cfg.chunkSize) + size)) = c.parityOf index cidx m := by
    intro k hk254 hlt
    have hw := hwrap k hk254 hlt
    rw [u32_eq (n := offset + cidx * cfg.chunkSize) (by omega), u32_eq hw,
      c.encode_eq_add (Nat.le_add_right _ _) (hzero _ _ rfl rfl), zero_add]
    rfl
  cases hc : c with
  | raid5 k => rfl
  | rdp r =>
    rw [hc] at hk hrange
    exact hrange r.k r.k_le hk
  | evenOdd r =>
    rw [hc] at hk hrange
    exact hrange r.k r.k_le hk

end Coding

end MemEC.Common
