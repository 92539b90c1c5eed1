import MemEC.Common.Coding
import MemEC.Lib.Lists

/-!
# What a code promises

A server encodes and decodes through the virtual methods of `Coding` and knows
nothing else of the code. The promise it relies on is that a stripe of which
some, but not too many, chunks are lost and cleared is restored. RAID-5 keeps
it.
-/

namespace MemEC.Common

open MemEC.Lib

variable {cfg : GlobalConfig}

/-- The two chunks hold the same bytes. -/
def SameChunk (cfg : GlobalConfig) (a b : Memory) : Prop := ∀ i < cfg.chunkSize, a i = b i

namespace SameChunk

variable {a b c : Memory}

theorem refl (a : Memory) : SameChunk cfg a a := fun _ _ => rfl

theorem symm (h : SameChunk cfg a b) : SameChunk cfg b a := fun i hi => (h i hi).symm

theorem trans (h : SameChunk cfg a b) (h' : SameChunk cfg b c) : SameChunk cfg a c :=
  fun i hi => (h i hi).trans (h' i hi)

theorem add {a' b' : Memory} (h : SameChunk cfg a a') (h' : SameChunk cfg b b') :
    SameChunk cfg (a + b) (a' + b') := by
  intro i hi
  rw [Memory.add_apply, Memory.add_apply, h i hi, h' i hi]

end SameChunk

/-- The chunks among the first `n` that the bitmap does not list. -/
def lostChunks (n : ℕ) (bitmap : ℕ → Bool) : List ℕ := (List.range n).filter fun i => !bitmap i

theorem mem_lostChunks {n i : ℕ} {bitmap : ℕ → Bool} :
    i ∈ lostChunks n bitmap ↔ i < n ∧ bitmap i = false := by
  simp [lostChunks]

theorem lostChunks_succ (n : ℕ) (bitmap : ℕ → Bool) :
    lostChunks (n + 1) bitmap = lostChunks n bitmap ++ if bitmap n then [] else [n] := by
  unfold lostChunks
  rw [List.range_succ, List.filter_append]
  cases hn : bitmap n <;> simp [hn]

/-- Chunk `i` of the stripe with these data chunks. -/
def stripeChunk (encode : (ℕ → Memory) → Memory → ℕ → ℕ → ℕ → Memory) (k : ℕ)
    (data : ℕ → Memory) (i : ℕ) : Memory :=
  if i < k then data i else encode data 0 (i - k + 1) 0 0

section

variable {encode : (ℕ → Memory) → Memory → ℕ → ℕ → ℕ → Memory} {k : ℕ} {data chunks : ℕ → Memory}

theorem stripeChunk_of_lt {i : ℕ} (hi : i < k) : stripeChunk encode k data i = data i := if_pos hi

theorem stripeChunk_add (i : ℕ) :
    stripeChunk encode k data (k + i) = encode data 0 (i + 1) 0 0 := by
  rw [stripeChunk, if_neg (by omega), Nat.add_sub_cancel_left]

/-- A cleared parity chunk is encoded once more. -/
theorem restores_of_accumulates {F : (ℕ → Memory) → Memory → Memory} (hF : Accumulates F)
    (hcongr : F chunks 0 = F data 0) {parity : Memory} (hparity : SameChunk cfg parity 0) :
    SameChunk cfg (F chunks parity) (F data 0) := by
  have hself : SameChunk cfg (F data 0) (F data 0) := SameChunk.refl _
  have h := hparity.add hself
  rwa [zero_add, ← hcongr, ← hF.eq_add, hcongr] at h

/-- The second parity chunk is encoded once more, from data that is there. -/
theorem update_restores (hF : Accumulates fun data parity => encode data parity 2 0 0)
    (hcongr : (∀ i < k, SameChunk cfg (chunks i) (data i)) →
      encode chunks 0 2 0 0 = encode data 0 2 0 0)
    (hdata : ∀ i < k + 1, SameChunk cfg (chunks i) (stripeChunk encode k data i))
    (hzero : SameChunk cfg (chunks (k + 1)) 0) (i : ℕ) (hi : i < k + 2) :
    SameChunk cfg (Function.update chunks (k + 1) (encode chunks (chunks (k + 1)) 2 0 0) i)
      (stripeChunk encode k data i) := by
  by_cases hlast : i = k + 1
  · subst hlast
    rw [Function.update_self, stripeChunk_add]
    refine restores_of_accumulates hF (hcongr fun x hx => ?_) hzero
    have hx' := hdata x (by omega)
    rwa [stripeChunk_of_lt hx] at hx'
  · rw [Function.update_of_ne hlast]
    exact hdata i (by omega)

end

/-! ## What is left of a stripe -/

section

variable {n i : ℕ} {bitmap : ℕ → Bool} {lost : List ℕ} {chunks full : ℕ → Memory}

theorem pairwise_of_lostChunks (h : lostChunks n bitmap = lost) : lost.Pairwise (· < ·) := by
  subst h
  exact List.pairwise_lt_range.filter _

theorem mem_lt_of_lostChunks (h : lostChunks n bitmap = lost) (hi : i ∈ lost) : i < n := by
  subst h
  exact (mem_lostChunks.mp hi).1

theorem bitmap_of_mem_lost (h : lostChunks n bitmap = lost) (hi : i ∈ lost) :
    bitmap i = false := by
  subst h
  exact (mem_lostChunks.mp hi).2

theorem bitmap_of_notMem_lost (h : lostChunks n bitmap = lost) (hlt : i < n) (hi : i ∉ lost) :
    bitmap i = true := by
  subst h
  by_contra hb
  exact hi (mem_lostChunks.mpr ⟨hlt, Bool.eq_false_iff.mpr hb⟩)

/-- A chunk that is not lost is that of the stripe. -/
theorem sameChunk_of_notMem_lost
    (h : ∀ i < n, SameChunk cfg (chunks i) (if bitmap i then full i else 0))
    (hlost : lostChunks n bitmap = lost) (hlt : i < n) (hi : i ∉ lost) :
    SameChunk cfg (chunks i) (full i) := by
  have hsame := h i hlt
  rwa [bitmap_of_notMem_lost hlost hlt hi, if_pos rfl] at hsame

theorem sameChunk_zero_of_mem_lost
    (h : ∀ i < n, SameChunk cfg (chunks i) (if bitmap i then full i else 0))
    (hlost : lostChunks n bitmap = lost) (hi : i ∈ lost) : SameChunk cfg (chunks i) 0 := by
  have hsame := h i (mem_lt_of_lostChunks hlost hi)
  rwa [bitmap_of_mem_lost hlost hi, if_neg Bool.false_ne_true] at hsame

end

/-- The virtual methods of `Coding`. The stripe has `k` data and `m` parity chunks. -/
structure CodingContract (cfg : GlobalConfig) (k m : ℕ) where
  encode : (ℕ → Memory) → Memory → ℕ → ℕ → ℕ → Memory
  decode : (ℕ → Memory) → (ℕ → Bool) → Bool × (ℕ → Memory)
  encode_zero : ∀ index, SameChunk cfg (encode 0 0 index 0 0) 0
  /-- An encoder reads the chunks and nothing behind them. -/
  encode_congr : ∀ {data data' : ℕ → Memory}, (∀ i < k, SameChunk cfg (data i) (data' i)) →
    ∀ index, encode data 0 index 0 0 = encode data' 0 index 0 0
  decode_stripe : ∀ (data chunks : ℕ → Memory) (bitmap : ℕ → Bool),
    (∀ i < k + m, SameChunk cfg (chunks i)
      (if bitmap i then stripeChunk encode k data i else 0)) →
    0 < (lostChunks (k + m) bitmap).length → (lostChunks (k + m) bitmap).length ≤ m →
    ∀ i < k + m, SameChunk cfg ((decode chunks bitmap).2 i) (stripeChunk encode k data i)

/-- `RAID5Coding::decode`. The chunk that is rebuilt is chunk `0` when none is lost. -/
def RAID5Coding.decode (cfg : GlobalConfig) (n : ℕ) (chunks : ℕ → Memory) (bitmap : ℕ → Bool) :
    Bool × (ℕ → Memory) :=
  let lost := lostChunks n bitmap
  if 1 < lost.length then (false, chunks)
  else
    let lostIndex := lost.headD 0
    (true, Function.update chunks lostIndex (((List.range n).filter (· ≠ lostIndex)).foldl
      (fun lostChunk i => lostChunk.xorInto 0 (chunks i) 0 cfg.chunkSize) (chunks lostIndex)))

/-! ## RAID-5 -/

namespace RAID5Coding

/-- The bytes of a chunk, without what lies behind it. -/
def trim (cfg : GlobalConfig) : Memory →+ Memory := Memory.windowHom 0 0 cfg.chunkSize

theorem trim_apply {i : ℕ} (hi : i < cfg.chunkSize) (m : Memory) : trim cfg m i = m i := by
  simp [trim, Memory.window, hi]

theorem trim_eq_iff {a b : Memory} : trim cfg a = trim cfg b ↔ SameChunk cfg a b := by
  constructor
  · intro h i hi
    rw [← trim_apply hi a, ← trim_apply hi b, h]
  · intro h
    ext i : 1
    by_cases hi : i < cfg.chunkSize
    · rw [trim_apply hi, trim_apply hi, h i hi]
    · simp [trim, Memory.window, hi]

theorem trim_trim (m : Memory) : trim cfg (trim cfg m) = trim cfg m :=
  trim_eq_iff.mpr fun _ hi => trim_apply hi m

theorem foldl_xorInto (l : List ℕ) (chunks : ℕ → Memory) (s : Memory) :
    l.foldl (fun s i => s.xorInto 0 (chunks i) 0 cfg.chunkSize) s =
      s + (l.map fun i => trim cfg (chunks i)).sum := by
  induction l generalizing s with
  | nil => exact (add_zero s).symm
  | cons i l ih =>
    rw [List.foldl_cons, ih, Memory.xorInto_eq_add, List.map_cons, List.sum_cons, add_assoc]
    rfl

variable {k : ℕ}

theorem trim_encode (data : ℕ → Memory) :
    trim cfg (encode cfg (k + 1) data 0) = ((List.range k).map fun i => trim cfg (data i)).sum := by
  unfold encode
  rw [Nat.add_sub_cancel, foldl_xorInto, zero_add, map_list_sum, List.map_map]
  simp only [Function.comp_def, trim_trim]

/-- The chunks of a stripe add up to nothing. -/
theorem sum_stripe (data : ℕ → Memory) :
    ((List.range (k + 1)).map fun i =>
      trim cfg (stripeChunk (fun d p _ _ _ => encode cfg (k + 1) d p) k data i)).sum = 0 := by
  have hdata : ((List.range k).map fun i =>
      trim cfg (stripeChunk (fun d p _ _ _ => encode cfg (k + 1) d p) k data i)) =
      (List.range k).map fun i => trim cfg (data i) := by
    refine List.map_congr_left fun i hi => ?_
    simp only [stripeChunk, if_pos (List.mem_range.mp hi)]
  rw [List.range_succ, List.map_append, List.sum_append, hdata]
  simp only [List.map_cons, List.map_nil, List.sum_cons, List.sum_nil, add_zero, stripeChunk,
    lt_irrefl, if_false, trim_encode, Memory.add_self]

/-- Each term of a sum that vanishes is the sum of the others. -/
theorem sum_filter_ne {n j : ℕ} (hj : j < n) (f : ℕ → Memory)
    (h : ((List.range n).map f).sum = 0) :
    (((List.range n).filter (· ≠ j)).map f).sum = f j := by
  have hcount : (List.range n).count j = 1 :=
    List.count_eq_one_of_mem List.nodup_range (List.mem_range.mpr hj)
  have hone : (List.range n).filter (fun i => decide (i = j)) = [j] := by
    rw [List.filter_eq, hcount, List.replicate_one]
  have hsplit := sum_map_add_filter Memory.add_self f (fun i => decide (i = j)) (List.range n)
  rw [h, hone, zero_add] at hsplit
  simp only [List.map_cons, List.map_nil, List.sum_cons, List.sum_nil, add_zero] at hsplit
  simpa using hsplit.symm

theorem decode_stripe (data chunks : ℕ → Memory) (bitmap : ℕ → Bool)
    (h : ∀ i < k + 1, SameChunk cfg (chunks i) (if bitmap i then
      stripeChunk (fun d p _ _ _ => encode cfg (k + 1) d p) k data i else 0))
    (hpos : 0 < (lostChunks (k + 1) bitmap).length)
    (hle : (lostChunks (k + 1) bitmap).length ≤ 1) (i : ℕ) (hi : i < k + 1) :
    SameChunk cfg ((decode cfg (k + 1) chunks bitmap).2 i)
      (stripeChunk (fun d p _ _ _ => encode cfg (k + 1) d p) k data i) := by
  obtain ⟨j, hlost⟩ := List.length_eq_one_iff.mp (le_antisymm hle hpos)
  have hthere : ∀ a < k + 1, a ≠ j → SameChunk cfg (chunks a)
      (stripeChunk (fun d p _ _ _ => encode cfg (k + 1) d p) k data a) :=
    fun a ha hne => sameChunk_of_notMem_lost h hlost ha (List.mem_singleton.not.mpr hne)
  simp only [decode, hlost, List.length_singleton, lt_irrefl, if_false, List.headD_cons]
  by_cases hij : i = j
  · subst hij
    rw [Function.update_self, foldl_xorInto, ← trim_eq_iff, map_add]
    have hzero : trim cfg (chunks i) = 0 := by
      have hcleared := sameChunk_zero_of_mem_lost h hlost List.mem_cons_self
      rw [trim_eq_iff.mpr hcleared, map_zero]
    have hothers : ((List.range (k + 1)).filter (· ≠ i)).map (fun a => trim cfg (chunks a)) =
        ((List.range (k + 1)).filter (· ≠ i)).map fun a =>
          trim cfg (stripeChunk (fun d p _ _ _ => encode cfg (k + 1) d p) k data a) := by
      refine List.map_congr_left fun a ha => ?_
      rw [List.mem_filter, List.mem_range, decide_eq_true_eq] at ha
      exact trim_eq_iff.mpr (hthere a ha.1 ha.2)
    rw [hzero, zero_add, hothers, sum_filter_ne hi _ (sum_stripe data), trim_trim]
  · rw [Function.update_of_ne hij]
    exact hthere i hi hij

/-- RAID-5 as a code. -/
def contract (cfg : GlobalConfig) (k : ℕ) : CodingContract cfg k 1 where
  encode data parity _ _ _ := encode cfg (k + 1) data parity
  decode := decode cfg (k + 1)
  encode_zero _ := by
    have hzero : encode cfg (k + 1) 0 0 = 0 := (accumulates (k + 1)).map_zero
    rw [hzero]
    exact SameChunk.refl 0
  encode_congr h _ := encode_congr h 0
  decode_stripe := decode_stripe

end RAID5Coding

end MemEC.Common
