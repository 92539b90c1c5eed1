import MemEC.Common.CodingContract
import MemEC.Common.GaloisField
import MemEC.Common.Key
import MemEC.Lib.GaussJordan
import Mathlib.Data.List.GetD

/-!
# Codes built on ISA-L

`RSCoding` and `CauchyCoding`, compiled with ISA-L, differ in the matrix they
encode with and in a check of their parameters. The matrix of `n` rows and `k`
columns lies in a buffer of `RS_N_MAX * RS_N_MAX` bytes, row after row; an
entry is found here by its row and its column. XOR and `gf_mul` are the sum and
the product of `GF256`.
-/

namespace MemEC.Common

open MemEC.Lib

variable {cfg : GlobalConfig}

/-- `RS_N_MAX` and `CRS_N_MAX`. -/
def rsNMax : ℕ := 32

/-! ## The library -/

/-- `gf_gen_rs_matrix`: the identity, and behind it the powers of the powers of two. -/
def gfGenRsMatrix (k i j : ℕ) : GF256 :=
  if i < k then if i = j then 1 else 0
  else (fun p => gfMul p ((fun gen => gfMul gen 2)^[i - k] 1))^[j] 1

/-- `gf_gen_cauchy1_matrix`: the identity, and behind it the inverses of `i ^ j`. -/
def gfGenCauchy1Matrix (k i j : ℕ) : GF256 :=
  if i < k then if i = j then 1 else 0
  else gfInv (UInt8.ofNat (i ^^^ j))

/-- `gf_invert_matrix`, `none` for `-1`. What lies behind the `n` rows of `out_mat` is
not written. -/
def gfInvertMatrix (n : ℕ) (inMat outMat : ℕ → ℕ → GF256) : Option (ℕ → ℕ → GF256) :=
  (GaussJordan.reduce n ⟨inMat, fun r c =>
    if r < n then if r = c then 1 else 0 else outMat r c⟩).map GaussJordan.Pair.right

/-- `ec_encode_data`, with the coefficients `ec_init_tables` made the tables from. -/
def ecEncodeData (len srcs dests : ℕ) (a : ℕ → ℕ → GF256) (src dest : ℕ → Memory) (l : ℕ) :
    Memory := fun i =>
  if l < dests ∧ i < len then
    ((List.range srcs).foldl (fun s j => s + GF256.ofByte (src j i) * a l j) 0).toByte
  else dest l i

/-- `ec_encode_data_update`, for one of the sources. -/
def ecEncodeDataUpdate (len rows vecI : ℕ) (a : ℕ → ℕ → GF256) (data : Memory)
    (dest : ℕ → Memory) (l : ℕ) : Memory := fun i =>
  if l < rows ∧ i < len then
    (GF256.ofByte (dest l i) + GF256.ofByte (data i) * a l vecI).toByte
  else dest l i

/-! ## The coders -/

/-- The schemes whose coders use the library. -/
inductive IsalScheme where
  | rs
  | cauchy
  deriving DecidableEq

/-- A coder. -/
structure IsalCoding where
  scheme : IsalScheme
  k : ℕ
  m : ℕ
  encodeMatrix : ℕ → ℕ → GF256

/-- The constructor of `RSCoding`, `none` where it exits. Where the sum wraps around in
32 bits, the matrix is longer than the object. -/
def RSCoding.construct (k m : ℕ) : Option IsalCoding :=
  if rsNMax < k + m then none else some ⟨.rs, k, m, gfGenRsMatrix k⟩

/-- The constructor of `CauchyCoding`. It has no check: `none` stands for a matrix that is
longer than the object, or for more chunks than the arrays of `encode` hold. -/
def CauchyCoding.construct (k m : ℕ) : Option IsalCoding :=
  if k ≤ rsNMax ∧ m ≤ rsNMax ∧ k * (k + m) ≤ rsNMax * rsNMax then
    some ⟨.cauchy, k, m, gfGenCauchy1Matrix k⟩
  else none

/-- `Coding::instantiate`. -/
def IsalCoding.instantiate (scheme : IsalScheme) (k m : ℕ) : Option IsalCoding :=
  match scheme with
  | .rs => RSCoding.construct k m
  | .cauchy => CauchyCoding.construct k m

namespace IsalCoding

variable (c : IsalCoding)

/-- The rows behind the identity, `_encodeMatrix + k * k`. -/
def parityRows (l : ℕ) : ℕ → GF256 := c.encodeMatrix (c.k + l)

/-- All of a parity chunk. The other parity chunks go to a buffer of the function's own. -/
def encodeAll (cfg : GlobalConfig) (data : ℕ → Memory) (parity : Memory) (index : ℕ) : Memory :=
  if 1 ≤ index ∧ index ≤ c.m then
    ecEncodeData cfg.chunkSize c.k c.m c.parityRows data (fun _ => parity) (index - 1)
  else parity

/-- The data chunks from `startOff` to `endOff` XOR-ed into a parity chunk. -/
def encodeDelta (cfg : GlobalConfig) (data : ℕ → Memory) (parity : Memory)
    (index startOff endOff : ℕ) : Memory :=
  let first := startOff / cfg.chunkSize
  let last := sub32 endOff 1 / cfg.chunkSize
  if 1 ≤ index ∧ index ≤ c.m then
    (List.range' first (last + 1 - first)).foldl (fun parity i =>
      ecEncodeDataUpdate cfg.chunkSize c.m i c.parityRows (data i) (fun _ => parity)
        (index - 1)) parity
  else parity

/-- `RSCoding::encode` and `CauchyCoding::encode`. -/
def encode (cfg : GlobalConfig) (data : ℕ → Memory) (parity : Memory)
    (index startOff endOff : ℕ) : Memory :=
  match c.scheme with
  | .rs =>
    if startOff = 0 ∧ endOff = 0 then c.encodeAll cfg data parity index
    else c.encodeDelta cfg data parity index startOff endOff
  | .cauchy => c.encodeAll cfg data parity index

/-- The chunks the bitmap lists. -/
def alive (n : ℕ) (bitmap : ℕ → Bool) : List ℕ := (List.range n).filter bitmap

/-- `RSCoding::decode` and `CauchyCoding::decode`. `stack` is what the bytes of
`invertedMatrix` were before, and `none` stands for an access behind the arrays. -/
def decode (cfg : GlobalConfig) (chunks : ℕ → Memory) (bitmap : ℕ → Bool)
    (stack : ℕ → ℕ → GF256) : Option (Bool × (ℕ → Memory)) :=
  let erasures := lostChunks (c.k + c.m) bitmap
  let survivors := alive (c.k + c.m) bitmap
  if c.m < erasures.length then some (false, chunks)
  else if erasures.length = 0 then some (true, chunks)
  else if rsNMax ≤ erasures.length ∨ rsNMax < survivors.length then none
  else
    -- The rows of the survivors; the inversion reads the first `k` of them.
    match gfInvertMatrix c.k (fun r => c.encodeMatrix (survivors.getD r 0)) stack with
    | none => some (false, chunks)
    | some inverted =>
      let missing := ecEncodeData cfg.chunkSize c.k erasures.length
        (fun l => inverted (erasures.getD l 0)) (fun r => chunks (survivors.getD r 0))
        (fun l => chunks (erasures.getD l 0))
      some (true, fun i => if i ∈ erasures then missing (erasures.idxOf i) else chunks i)

/-- Chunk `i` of the stripe with these data chunks. -/
def chunk (cfg : GlobalConfig) (data : ℕ → Memory) (i : ℕ) : Memory :=
  stripeChunk (c.encode cfg) c.k data i

/-- The matrix of the coder determines the data from any `k` chunks, as a generator matrix
of the library has to. -/
def Generates : Prop :=
  ∀ rows : ℕ → ℕ, (∀ r < c.k, rows r < c.k + c.m) →
    (∀ r < c.k, ∀ r' < c.k, rows r = rows r' → r = r') →
    Independent c.k fun r => c.encodeMatrix (rows r)

/-- `decode` succeeds and all chunks are those of the stripe. -/
def Restores (cfg : GlobalConfig) (data chunks : ℕ → Memory) (bitmap : ℕ → Bool)
    (stack : ℕ → ℕ → GF256) : Prop :=
  ∃ out, c.decode cfg chunks bitmap stack = some (true, out) ∧
    ∀ i < c.k + c.m, SameChunk cfg (out i) (c.chunk cfg data i)

variable {c : IsalCoding}

theorem encode_full (data : ℕ → Memory) (parity : Memory) (index : ℕ) :
    c.encode cfg data parity index 0 0 = c.encodeAll cfg data parity index := by
  unfold encode
  cases c.scheme with
  | rs => exact if_pos ⟨rfl, rfl⟩
  | cauchy => rfl

theorem foldl_dot (n : ℕ) (a v : ℕ → GF256) :
    (List.range n).foldl (fun s j => s + v j * a j) 0 = dot n a v := by
  induction n with
  | zero => rfl
  | succ n ih =>
    rw [List.range_succ, List.foldl_append, ih, dot, dot, Finset.sum_range_succ, mul_comm (a n)]
    rfl

/-- The bytes at one place of all chunks. -/
def column (chunks : ℕ → Memory) (b i : ℕ) : GF256 := .ofByte (chunks i b)

theorem ecEncodeData_apply {srcs dests l b : ℕ} {a : ℕ → ℕ → GF256} {src dest : ℕ → Memory}
    (hl : l < dests) (hb : b < cfg.chunkSize) :
    GF256.ofByte (ecEncodeData cfg.chunkSize srcs dests a src dest l b) =
      dot srcs (a l) (column src b) := by
  have hbyte : ecEncodeData cfg.chunkSize srcs dests a src dest l b =
      ((List.range srcs).foldl (fun s j => s + column src b j * a l j) 0).toByte :=
    if_pos ⟨hl, hb⟩
  rw [hbyte, GF256.ofByte_toByte, foldl_dot]

/-! ## Encoding is additive in the data -/

/-- The bytes of a chunk, multiplied. -/
def product (len : ℕ) (x : GF256) (data : Memory) : Memory := fun i =>
  if i < len then (GF256.ofByte (data i) * x).toByte else 0

theorem product_add (len : ℕ) (x : GF256) (data data' : Memory) :
    product len x (data + data') = product len x data + product len x data' := by
  ext i : 1
  rw [Memory.add_apply]
  unfold product
  by_cases hi : i < len
  · rw [if_pos hi, if_pos hi, if_pos hi]
    exact add_mul (GF256.ofByte (data i)) (GF256.ofByte (data' i)) x
  · rw [if_neg hi, if_neg hi, if_neg hi, UInt8.xor_self]

/-- `product` as a homomorphism. -/
def productHom (len : ℕ) (x : GF256) : Memory →+ Memory where
  toFun := product len x
  map_zero' := by
    ext i : 1
    unfold product
    split_ifs
    · exact zero_gfMul x
    · rfl
  map_add' := product_add len x

theorem encodeDelta_accumulates (index startOff endOff : ℕ) :
    Accumulates fun data parity => c.encodeDelta cfg data parity index startOff endOff := by
  unfold encodeDelta
  by_cases hindex : 1 ≤ index ∧ index ≤ c.m
  · simp only [if_pos hindex]
    apply Accumulates.foldl
    intro i
    refine ⟨(productHom cfg.chunkSize (c.parityRows (index - 1) i)).comp
      (Pi.evalAddMonoidHom (fun _ => Memory) i), ?_⟩
    intro data parity
    have hrow : index - 1 < c.m := by omega
    ext b : 1
    refine Eq.trans ?_ (Memory.add_apply parity
      (product cfg.chunkSize (c.parityRows (index - 1) i) (data i)) b).symm
    by_cases hb : b < cfg.chunkSize
    · simp only [ecEncodeDataUpdate, if_pos (And.intro hrow hb), product, if_pos hb]
      rfl
    · have hout : ¬(index - 1 < c.m ∧ b < cfg.chunkSize) := fun h => hb h.2
      simp only [ecEncodeDataUpdate, if_neg hout, product, if_neg hb, UInt8.xor_zero]
  · simp only [if_neg hindex]
    exact Accumulates.skip

theorem column_add (data data' : ℕ → Memory) (b : ℕ) :
    column (data + data') b = column data b + column data' b := rfl

theorem dot_add (n : ℕ) (row v w : ℕ → GF256) : dot n row (v + w) = dot n row v + dot n row w := by
  unfold dot
  rw [← Finset.sum_add_distrib]
  exact Finset.sum_congr rfl fun i _ => mul_add (row i) (v i) (w i)

theorem encodeAll_add (data data' : ℕ → Memory) (index : ℕ) :
    c.encodeAll cfg (data + data') 0 index =
      c.encodeAll cfg data 0 index + c.encodeAll cfg data' 0 index := by
  unfold encodeAll
  by_cases hindex : 1 ≤ index ∧ index ≤ c.m
  · rw [if_pos hindex, if_pos hindex, if_pos hindex]
    have hrow : index - 1 < c.m := by omega
    ext b : 1
    by_cases hb : b < cfg.chunkSize
    · have happly : ∀ src : ℕ → Memory,
          GF256.ofByte (ecEncodeData cfg.chunkSize c.k c.m c.parityRows src (fun _ => 0)
            (index - 1) b) = dot c.k (c.parityRows (index - 1)) (column src b) :=
        fun src => ecEncodeData_apply hrow hb
      refine (happly (data + data')).trans ?_
      rw [column_add, dot_add, ← happly data, ← happly data']
      rfl
    · simp [ecEncodeData, hb]
  · rw [if_neg hindex, if_neg hindex, if_neg hindex, add_zero]

theorem encode_add (data data' : ℕ → Memory) (index startOff endOff : ℕ) :
    c.encode cfg (data + data') 0 index startOff endOff =
      c.encode cfg data 0 index startOff endOff + c.encode cfg data' 0 index startOff endOff := by
  unfold encode
  cases c.scheme with
  | rs =>
    dsimp only
    by_cases hall : startOff = 0 ∧ endOff = 0
    · rw [if_pos hall, if_pos hall, if_pos hall]
      exact encodeAll_add data data' index
    · rw [if_neg hall, if_neg hall, if_neg hall]
      exact (encodeDelta_accumulates index startOff endOff).map_add data data'
  | cauchy => exact encodeAll_add data data' index

/-! ## What the constructors make -/

/-- The first rows of the matrix are those of the identity. -/
theorem encodeMatrix_top {scheme : IsalScheme} {k m : ℕ}
    (hc : instantiate scheme k m = some c) :
    c.k = k ∧ c.m = m ∧ ∀ i < k, ∀ j < k, c.encodeMatrix i j = if i = j then 1 else 0 := by
  cases scheme with
  | rs =>
    simp only [instantiate, RSCoding.construct] at hc
    split_ifs at hc
    cases hc
    exact ⟨rfl, rfl, fun i hi j _ => if_pos hi⟩
  | cauchy =>
    simp only [instantiate, CauchyCoding.construct] at hc
    split_ifs at hc
    cases hc
    exact ⟨rfl, rfl, fun i hi j _ => if_pos hi⟩

/-- A byte of a chunk is the product of the row of the chunk and the bytes of the data. -/
theorem chunk_apply {scheme : IsalScheme} (hc : instantiate scheme c.k c.m = some c)
    {data : ℕ → Memory} {i b : ℕ} (hi : i < c.k + c.m) (hb : b < cfg.chunkSize) :
    GF256.ofByte (c.chunk cfg data i b) = dot c.k (c.encodeMatrix i) (column data b) := by
  unfold chunk stripeChunk
  by_cases hk : i < c.k
  · rw [if_pos hk, dot_unit hk ((encodeMatrix_top hc).2.2 i hk)]
    rfl
  · have hrow : c.encodeMatrix i = c.parityRows (i - c.k) := by
      rw [parityRows, Nat.add_sub_cancel' (Nat.le_of_not_lt hk)]
    rw [if_neg hk, encode_full, encodeAll, if_pos ⟨by omega, by omega⟩, Nat.add_sub_cancel, hrow]
    exact ecEncodeData_apply (by omega) hb

/-! ## The survivors -/

theorem alive_length (n : ℕ) (bitmap : ℕ → Bool) :
    (alive n bitmap).length + (lostChunks n bitmap).length = n := by
  induction n with
  | zero => rfl
  | succ n ih =>
    cases hb : bitmap n <;> simp [alive, lostChunks, List.range_succ, hb] at ih ⊢ <;> omega

theorem alive_getD {n r : ℕ} {bitmap : ℕ → Bool} (hr : r < (alive n bitmap).length) :
    (alive n bitmap).getD r 0 < n ∧ bitmap ((alive n bitmap).getD r 0) = true := by
  have hmem : (alive n bitmap).getD r 0 ∈ alive n bitmap := by
    rw [List.getD_eq_getElem _ _ hr]
    exact List.getElem_mem hr
  simpa [alive] using hmem

theorem alive_injOn {n r r' : ℕ} {bitmap : ℕ → Bool} (hr : r < (alive n bitmap).length)
    (hr' : r' < (alive n bitmap).length)
    (h : (alive n bitmap).getD r 0 = (alive n bitmap).getD r' 0) : r = r' := by
  have hnodup : (alive n bitmap).Nodup := List.nodup_range.filter _
  rw [List.getD_eq_getElem _ _ hr, List.getD_eq_getElem _ _ hr'] at h
  exact (hnodup.getElem_inj_iff).mp h

/-! ## The inversion -/

variable {data chunks : ℕ → Memory} {bitmap : ℕ → Bool}

/-- The chunks that are not lost are those of the stripe. -/
def There (c : IsalCoding) (cfg : GlobalConfig) (data chunks : ℕ → Memory)
    (bitmap : ℕ → Bool) : Prop :=
  ∀ i < c.k + c.m, bitmap i = true → SameChunk cfg (chunks i) (c.chunk cfg data i)

/-- The first `k` rows of the inverse give the data back, and the rows behind them are
those of the stack. -/
theorem gfInvertMatrix_survivors {scheme : IsalScheme}
    (hc : instantiate scheme c.k c.m = some c) (hgen : c.Generates)
    (hfew : (lostChunks (c.k + c.m) bitmap).length ≤ c.m)
    (hthere : c.There cfg data chunks bitmap) (stack : ℕ → ℕ → GF256) :
    ∃ inverted, gfInvertMatrix c.k
        (fun r => c.encodeMatrix ((alive (c.k + c.m) bitmap).getD r 0)) stack = some inverted ∧
      (∀ i < c.k, ∀ b < cfg.chunkSize, column data b i = dot c.k (inverted i)
        (column (fun r => chunks ((alive (c.k + c.m) bitmap).getD r 0)) b)) ∧
      ∀ i, c.k ≤ i → inverted i = stack i := by
  have hcount := alive_length (c.k + c.m) bitmap
  have hlen : c.k ≤ (alive (c.k + c.m) bitmap).length := by omega
  have hind : Independent c.k fun r => c.encodeMatrix ((alive (c.k + c.m) bitmap).getD r 0) :=
    hgen _ (fun r hr => (alive_getD (hr.trans_le hlen)).1)
      fun r hr r' hr' h => alive_injOn (hr.trans_le hlen) (hr'.trans_le hlen) h
  obtain ⟨t, ht, hsolve, hbehind⟩ := GaussJordan.reduce_spec hind
    (b := fun r j => if r < c.k then if r = j then 1 else 0 else stack r j)
    (fun r hr j _ => if_pos hr)
  refine ⟨t.right, by rw [gfInvertMatrix, ht, Option.map_some], ?_, ?_⟩
  · intro i hi b hb
    apply (hsolve (column data b) _).mp _ i hi
    intro r hr
    obtain ⟨hlt, halive⟩ := alive_getD (hr.trans_le hlen)
    rw [← chunk_apply hc hlt hb]
    exact (hthere _ hlt halive b hb).symm
  · intro i hi
    rw [hbehind i hi]
    funext j
    exact if_neg (Nat.not_lt.mpr hi)

/-! ## What is restored -/

/-- The bytes of the survivors that the decoding reads. -/
def source (c : IsalCoding) (chunks : ℕ → Memory) (bitmap : ℕ → Bool) (b r : ℕ) : GF256 :=
  column (fun r => chunks ((alive (c.k + c.m) bitmap).getD r 0)) b r

/-- What an inversion gives the erased chunks. -/
theorem decode_erased {stack inverted : ℕ → ℕ → GF256}
    (hfew : (lostChunks (c.k + c.m) bitmap).length ≤ c.m)
    (hlost : lostChunks (c.k + c.m) bitmap ≠ [])
    (hfits : (lostChunks (c.k + c.m) bitmap).length < rsNMax ∧
      (alive (c.k + c.m) bitmap).length ≤ rsNMax)
    (hinv : gfInvertMatrix c.k
      (fun r => c.encodeMatrix ((alive (c.k + c.m) bitmap).getD r 0)) stack = some inverted) :
    ∃ out, c.decode cfg chunks bitmap stack = some (true, out) ∧
      (∀ i < c.k + c.m, bitmap i = true → out i = chunks i) ∧
      ∀ i < c.k + c.m, bitmap i = false → ∀ b < cfg.chunkSize,
        GF256.ofByte (out i b) = dot c.k (inverted i) (c.source chunks bitmap b) := by
  have hlen : (lostChunks (c.k + c.m) bitmap).length ≠ 0 :=
    fun h => hlost (List.length_eq_zero_iff.mp h)
  refine ⟨_, by
    simp only [decode]
    rw [if_neg (by omega), if_neg hlen, if_neg (by omega), hinv], ?_, ?_⟩
  · intro i hi hb
    apply if_neg
    rw [mem_lostChunks, hb]
    simp
  · intro i hi hb b hbyte
    have hmem : i ∈ lostChunks (c.k + c.m) bitmap := mem_lostChunks.mpr ⟨hi, hb⟩
    have hidx : (lostChunks (c.k + c.m) bitmap).idxOf i < (lostChunks (c.k + c.m) bitmap).length :=
      List.idxOf_lt_length_of_mem hmem
    simp only [if_pos hmem]
    rw [ecEncodeData_apply hidx hbyte, List.getD_eq_getElem _ _ hidx, List.getElem_idxOf hidx]
    rfl

/-- The survivors of a stripe of zeros are zero. -/
theorem source_eq_zero {scheme : IsalScheme} (hc : instantiate scheme c.k c.m = some c)
    (hfew : (lostChunks (c.k + c.m) bitmap).length ≤ c.m)
    (hthere : c.There cfg data chunks bitmap) {b r : ℕ} (hb : b < cfg.chunkSize)
    (hzero : ∀ i < c.k, column data b i = 0) (hr : r < c.k) : c.source chunks bitmap b r = 0 := by
  have hcount := alive_length (c.k + c.m) bitmap
  have hr' : r < (alive (c.k + c.m) bitmap).length := by omega
  obtain ⟨hlt, halive⟩ := alive_getD hr'
  have hchunk : GF256.ofByte (c.chunk cfg data ((alive (c.k + c.m) bitmap).getD r 0) b) = 0 := by
    rw [chunk_apply hc hlt hb, dot_congr (fun _ _ => rfl) hzero, dot_zero]
  exact (congrArg GF256.ofByte (hthere _ hlt halive b hb)).trans hchunk

/-- With an erased parity chunk the stack decides, unless there is nothing but zeros. -/
theorem data_eq_zero {scheme : IsalScheme} (hc : instantiate scheme c.k c.m = some c)
    (hgen : c.Generates) (hfew : (lostChunks (c.k + c.m) bitmap).length ≤ c.m)
    (hfits : (lostChunks (c.k + c.m) bitmap).length < rsNMax ∧
      (alive (c.k + c.m) bitmap).length ≤ rsNMax)
    (hthere : c.There cfg data chunks bitmap)
    (h : ∀ stack, c.Restores cfg data chunks bitmap stack) {i : ℕ} (hi : i < c.k + c.m)
    (hparity : c.k ≤ i) (herased : bitmap i = false) {j : ℕ} (hj : j < c.k) :
    SameChunk cfg (data j) 0 := by
  have hlost : lostChunks (c.k + c.m) bitmap ≠ [] :=
    List.ne_nil_of_mem (mem_lostChunks.mpr ⟨hi, herased⟩)
  intro b hb
  have hrow : ∀ row : ℕ → GF256, GF256.ofByte (c.chunk cfg data i b) =
      dot c.k row (c.source chunks bitmap b) := by
    intro row
    obtain ⟨inverted, hinv, -, hbehind⟩ :=
      gfInvertMatrix_survivors hc hgen hfew hthere (fun _ => row)
    obtain ⟨out, hout, -, herase⟩ := decode_erased hfew hlost hfits hinv
    obtain ⟨out', hout', hsame⟩ := h fun _ => row
    cases hout.symm.trans hout'
    rw [← hsame i hi b hb, herase i hi herased b hb, hbehind i hparity]
  have hchunk : GF256.ofByte (c.chunk cfg data i b) = 0 := by
    rw [hrow fun _ => 0, zero_dot]
  have hsource : ∀ r < c.k, c.source chunks bitmap b r = 0 := by
    intro r hr
    rw [← hchunk, hrow fun c => if r = c then 1 else 0, dot_unit hr fun _ _ => rfl]
  obtain ⟨inverted, -, hdata, -⟩ := gfInvertMatrix_survivors hc hgen hfew hthere 0
  have hzero : column data b j = 0 := by
    rw [hdata j hj b hb]
    exact (dot_congr (fun _ _ => rfl) hsource).trans (dot_zero _)
  exact hzero

/-- The erased data chunks come back, and erased parity chunks of zeros. -/
theorem restores_of_fits {scheme : IsalScheme} (hc : instantiate scheme c.k c.m = some c)
    (hgen : c.Generates) (hfew : (lostChunks (c.k + c.m) bitmap).length ≤ c.m)
    (hlost : lostChunks (c.k + c.m) bitmap ≠ [])
    (hfits : (lostChunks (c.k + c.m) bitmap).length < rsNMax ∧
      (alive (c.k + c.m) bitmap).length ≤ rsNMax)
    (hthere : c.There cfg data chunks bitmap)
    (h : (∀ i, c.k ≤ i → i < c.k + c.m → bitmap i = true) ∨
      ∀ i < c.k, SameChunk cfg (data i) 0) (stack : ℕ → ℕ → GF256) :
    c.Restores cfg data chunks bitmap stack := by
  obtain ⟨inverted, hinv, hdata, -⟩ := gfInvertMatrix_survivors hc hgen hfew hthere stack
  obtain ⟨out, hout, hkeep, herase⟩ := decode_erased hfew hlost hfits hinv
  refine ⟨out, hout, ?_⟩
  intro i hi b hb
  by_cases herased : bitmap i = true
  · rw [hkeep i hi herased]
    exact hthere i hi herased b hb
  · have hfalse : bitmap i = false := Bool.eq_false_iff.mpr herased
    by_cases hk : i < c.k
    · have hbyte : GF256.ofByte (out i b) = column data b i :=
        (herase i hi hfalse b hb).trans (hdata i hk b hb).symm
      have hchunk : c.chunk cfg data i = data i := if_pos hk
      rw [hchunk]
      exact hbyte
    · rcases h with hall | hzero
      · exact absurd (hall i (Nat.le_of_not_lt hk) hi) herased
      · have hcolumn : ∀ j < c.k, column data b j = 0 := fun j hj => hzero j hj b hb
        have hout₀ : GF256.ofByte (out i b) = 0 := by
          rw [herase i hi hfalse b hb, dot_congr (fun _ _ => rfl) fun r hr =>
            source_eq_zero hc hfew hthere hb hcolumn hr, dot_zero]
        have hchunk₀ : GF256.ofByte (c.chunk cfg data i b) = 0 := by
          rw [chunk_apply hc hi hb, dot_congr (fun _ _ => rfl) hcolumn, dot_zero]
        exact hout₀.trans hchunk₀.symm

/-! ## Two data chunks and a parity chunk -/

def sampleCoder : IsalCoding := ⟨.rs, 2, 1, gfGenRsMatrix 2⟩

theorem sampleCoder_generates : sampleCoder.Generates := by
  intro rows hlt hinj v hv
  have htop : ∀ i < 2, ∀ j < 2, sampleCoder.encodeMatrix i j = if i = j then 1 else 0 :=
    fun i hi j _ => if_pos hi
  have hrow : ∀ i < 2, dot 2 (sampleCoder.encodeMatrix i) v = v i :=
    fun i hi => dot_unit hi (htop i hi)
  have hparity : dot 2 (sampleCoder.encodeMatrix 2) v = v 0 + v 1 := by
    have h0 : sampleCoder.encodeMatrix 2 0 = 1 := by decide +kernel
    have h1 : sampleCoder.encodeMatrix 2 1 = 1 := by decide +kernel
    rw [dot, Finset.sum_range_succ, Finset.sum_range_one, h0, h1, one_mul, one_mul]
  have hne : rows 0 ≠ rows 1 := fun h => absurd (hinj 0 (by decide) 1 (by decide) h) (by decide)
  have hlt0 : rows 0 < 3 := hlt 0 (by decide)
  have hlt1 : rows 1 < 3 := hlt 1 (by decide)
  have hv0 : dot 2 (sampleCoder.encodeMatrix (rows 0)) v = 0 := hv 0 (by decide)
  have hv1 : dot 2 (sampleCoder.encodeMatrix (rows 1)) v = 0 := hv 1 (by decide)
  have hboth : v 0 = 0 ∧ v 1 = 0 := by
    generalize rows 0 = i at hlt0 hne hv0
    generalize rows 1 = j at hlt1 hne hv1
    have h0 := hrow 0 (by decide)
    have h1 := hrow 1 (by decide)
    interval_cases i <;> interval_cases j <;> grind
  intro c hc
  rcases (show c = 0 ∨ c = 1 from by have : c < 2 := hc; omega) with rfl | rfl
  · exact hboth.1
  · exact hboth.2

/-- The erased chunks that `decode` restores, whatever lies on the stack, are data chunks: the
rows of `invertedMatrix` that belong to parity chunks are never written. -/
theorem decode_restores_iff {scheme : IsalScheme} {k m : ℕ}
    (hc : instantiate scheme k m = some c) (hgen : c.Generates)
    (hfew : (lostChunks (k + m) bitmap).length ≤ m) (hthere : c.There cfg data chunks bitmap) :
    (∀ stack, c.Restores cfg data chunks bitmap stack) ↔
      lostChunks (k + m) bitmap = [] ∨
        ((lostChunks (k + m) bitmap).length < rsNMax ∧
          k + m - (lostChunks (k + m) bitmap).length ≤ rsNMax) ∧
        ((∀ i, k ≤ i → i < k + m → bitmap i = true) ∨ ∀ i < k, SameChunk cfg (data i) 0) := by
  obtain ⟨rfl, rfl, -⟩ := encodeMatrix_top hc
  have hcount := alive_length (c.k + c.m) bitmap
  by_cases hlost : lostChunks (c.k + c.m) bitmap = []
  · have hall : ∀ i < c.k + c.m, bitmap i = true := by
      intro i hi
      by_contra hb
      have hmem := mem_lostChunks.mpr ⟨hi, Bool.eq_false_iff.mpr hb⟩
      simp [hlost] at hmem
    refine iff_of_true (fun stack => ⟨chunks, ?_, fun i hi => hthere i hi (hall i hi)⟩) (Or.inl hlost)
    simp [decode, hlost]
  · rw [or_iff_right hlost]
    by_cases hfits : (lostChunks (c.k + c.m) bitmap).length < rsNMax ∧
        c.k + c.m - (lostChunks (c.k + c.m) bitmap).length ≤ rsNMax
    · rw [and_iff_right hfits]
      have hfits' : (lostChunks (c.k + c.m) bitmap).length < rsNMax ∧
          (alive (c.k + c.m) bitmap).length ≤ rsNMax := ⟨hfits.1, by omega⟩
      constructor
      · intro h
        by_contra hnot
        rw [not_or] at hnot
        obtain ⟨i, hparity, hi, herased⟩ : ∃ i, c.k ≤ i ∧ i < c.k + c.m ∧ ¬ bitmap i = true := by
          simpa only [not_forall, exists_prop] using hnot.1
        exact hnot.2 fun j hj => data_eq_zero hc hgen hfew hfits' hthere h hi hparity
          (Bool.eq_false_iff.mpr herased) hj
      · intro h
        exact restores_of_fits hc hgen hfew hlost hfits' hthere h
    · refine iff_of_false (fun h => ?_) (fun h => hfits h.1)
      obtain ⟨out, hout, -⟩ := h 0
      have hlen : (lostChunks (c.k + c.m) bitmap).length ≠ 0 :=
        fun h => hlost (List.length_eq_zero_iff.mp h)
      simp only [decode] at hout
      rw [if_neg (by omega), if_neg hlen, if_pos (by omega)] at hout
      cases hout

def sampleChunks (bitmap : ℕ → Bool) (i : ℕ) : Memory :=
  if bitmap i then sampleCoder.chunk .smallest (fun i => .place i [7, 9]) i else 0

theorem sampleChunks_there (bitmap : ℕ → Bool) :
    sampleCoder.There .smallest (fun i => .place i [7, 9]) (sampleChunks bitmap) bitmap := by
  intro i _ hb
  rw [sampleChunks, if_pos hb]
  exact SameChunk.refl _

/-- The first data chunk is lost. -/
theorem decode_restores_iff_data :
    (∀ stack, sampleCoder.Restores .smallest (fun i => .place i [7, 9])
      (sampleChunks fun i => i ≠ 0) (fun i => i ≠ 0) stack) ↔
    lostChunks 3 (fun i => i ≠ 0) = [] ∨
      ((lostChunks 3 fun i => i ≠ 0).length < rsNMax ∧
        2 + 1 - (lostChunks 3 fun i => i ≠ 0).length ≤ rsNMax) ∧
      ((∀ i, 2 ≤ i → i < 2 + 1 → decide (i ≠ 0) = true) ∨
        ∀ i < 2, SameChunk .smallest (Memory.place i [7, 9]) 0) :=
  have hc : instantiate .rs 2 1 = some sampleCoder := rfl
  have hfew : (lostChunks (2 + 1) fun i => i ≠ 0).length ≤ 1 := by decide
  decode_restores_iff hc sampleCoder_generates hfew (sampleChunks_there _)

/-- The parity chunk of two data chunks is lost and there are zeros on the stack: zeros come
back instead of the XOR of the data. -/
theorem not_restores_erased_parity :
    instantiate .rs 2 1 = some sampleCoder ∧ sampleCoder.Generates ∧
      (lostChunks 3 fun i => i ≠ 2).length ≤ 1 ∧
      sampleCoder.There .smallest (fun i => .place i [7, 9]) (sampleChunks fun i => i ≠ 2)
        (fun i => i ≠ 2) ∧
      ¬ sampleCoder.Restores .smallest (fun i => .place i [7, 9])
        (sampleChunks fun i => i ≠ 2) (fun i => i ≠ 2) 0 := by
  refine ⟨rfl, sampleCoder_generates, by decide, sampleChunks_there _, ?_⟩
  rintro ⟨out, hout, hsame⟩
  have hdecoded : (sampleCoder.decode .smallest (sampleChunks fun i => i ≠ 2) (fun i => i ≠ 2)
      0).map (fun p => p.2 2 1) = some 0 := by
    decide +kernel
  have hencoded : sampleCoder.chunk .smallest (fun i => .place i [7, 9]) 2 1 = 14 := by
    decide +kernel
  rw [hout, Option.map_some] at hdecoded
  have hzero : out 2 1 = 0 := Option.some.inj hdecoded
  have hbyte := hzero.symm.trans ((hsame 2 (by decide) 1 (by decide)).trans hencoded)
  exact absurd hbyte (by decide)

end IsalCoding

end MemEC.Common
