import MemEC.Common.ErasureCode
import MemEC.Lib.Superregular

/-!
# Which stripes the ISA-L coders decode

The rows that `gf_gen_cauchy1_matrix` puts behind the identity have no singular
square part, so that `CauchyCoding` gives all data chunks back. For the powers
of `gf_gen_rs_matrix` this is so with three parity chunks; with four it ends
at 21 data chunks, as the powers 0, 10 and 21 of two add up to zero.
-/

namespace MemEC.Common

open MemEC.Lib

variable {cfg : GlobalConfig}

namespace IsalCoding

/-- `decode` succeeds and the data chunks are those of the stripe. -/
def RestoresData (c : IsalCoding) (cfg : GlobalConfig) (data chunks : ℕ → Memory)
    (bitmap : ℕ → Bool) (stack : ℕ → ℕ → GF256) : Prop :=
  ∃ out, c.decode cfg chunks bitmap stack = some (true, out) ∧
    ∀ i < c.k, SameChunk cfg (out i) (data i)

variable {c : IsalCoding}

/-- A generator matrix brings back all data chunks. -/
theorem restoresData_of_generates {scheme : IsalScheme}
    (hc : instantiate scheme c.k c.m = some c) (hgen : c.Generates) (hk : 0 < c.k)
    (hfits : c.k + c.m ≤ rsNMax) {data chunks : ℕ → Memory} {bitmap : ℕ → Bool}
    (hfew : (lostChunks (c.k + c.m) bitmap).length ≤ c.m)
    (hthere : c.There cfg data chunks bitmap) (stack : ℕ → ℕ → GF256) :
    c.RestoresData cfg data chunks bitmap stack := by
  have hcount := alive_length (c.k + c.m) bitmap
  have hchunk : ∀ i < c.k, c.chunk cfg data i = data i := fun i hi => if_pos hi
  by_cases hlost : lostChunks (c.k + c.m) bitmap = []
  · refine ⟨chunks, by simp [decode, hlost], fun i hi => ?_⟩
    have halive : bitmap i = true := by
      by_contra hb
      have hmem := mem_lostChunks.mpr
        ⟨hi.trans_le (Nat.le_add_right c.k c.m), Bool.eq_false_iff.mpr hb⟩
      simp [hlost] at hmem
    rw [← hchunk i hi]
    exact hthere i (by omega) halive
  · obtain ⟨inverted, hinv, hdata, -⟩ := gfInvertMatrix_survivors hc hgen hfew hthere stack
    obtain ⟨out, hout, hkeep, herase⟩ := decode_erased hfew hlost (by omega) hinv
    refine ⟨out, hout, fun i hi b hb => ?_⟩
    by_cases herased : bitmap i = true
    · rw [hkeep i (by omega) herased, ← hchunk i hi]
      exact hthere i (by omega) herased b hb
    · exact (herase i (by omega) (Bool.eq_false_iff.mpr herased) b hb).trans (hdata i hi b hb).symm

/-- The rows behind the identity make a generator matrix. -/
theorem generates_of_superregular {a : ℕ → ℕ → GF256}
    (hc : c.encodeMatrix = systematic c.k a) (h : Superregular c.k c.m a) : c.Generates := by
  intro rows hlt hinj
  rw [hc]
  exact h.independent hlt hinj

end IsalCoding

/-! ## Cauchy matrices -/

/-- The sum of two numbers of eight bits, as elements of the field. -/
theorem ofByte_ofNat_xor (i j : ℕ) : GF256.ofByte (UInt8.ofNat (i ^^^ j)) =
    GF256.ofByte (UInt8.ofNat i) - GF256.ofByte (UInt8.ofNat j) := UInt8.ofNat_xor i j

theorem ofByte_ofNat_inj {i j : ℕ} (hi : i < 256) (hj : j < 256)
    (h : GF256.ofByte (UInt8.ofNat i) = GF256.ofByte (UInt8.ofNat j)) : i = j := by
  have hmod := congrArg UInt8.toNat h
  rwa [GF256.ofByte, GF256.ofByte, UInt8.toNat_ofNat', UInt8.toNat_ofNat',
    Nat.mod_eq_of_lt hi, Nat.mod_eq_of_lt hj] at hmod

/-- The matrix of `CauchyCoding`. -/
theorem gfGenCauchy1Matrix_eq (k : ℕ) : gfGenCauchy1Matrix k = systematic k fun r j =>
    (GF256.ofByte (UInt8.ofNat (k + r)) - GF256.ofByte (UInt8.ofNat j))⁻¹ := by
  funext i j
  by_cases hi : i < k
  · exact (if_pos hi).trans (if_pos hi).symm
  · refine (if_neg hi).trans ((if_neg hi).trans ?_).symm
    dsimp only
    rw [Nat.add_sub_cancel' (Nat.le_of_not_lt hi), ← ofByte_ofNat_xor]
    rfl

namespace CauchyCoding

open IsalCoding

variable {k m : ℕ} {c : IsalCoding}

/-- `gf_gen_cauchy1_matrix` makes a generator matrix. -/
theorem generates (hc : CauchyCoding.construct k m = some c) : c.Generates := by
  rw [CauchyCoding.construct] at hc
  split_ifs at hc with hfits
  obtain ⟨hk, hm, -⟩ := hfits
  obtain rfl := Option.some.inj hc
  rw [rsNMax] at hk hm
  refine generates_of_superregular (gfGenCauchy1Matrix_eq k) ?_
  refine superregular_cauchy (fun r hr r' hr' h => ?_) (fun j hj j' hj' h => ?_)
    fun r hr j hj h => ?_
  · have hlt := Finset.mem_range.mp hr
    have hlt' := Finset.mem_range.mp hr'
    dsimp only at hlt hlt'
    have hsame := ofByte_ofNat_inj (by omega) (by omega) h
    omega
  · have hlt := Finset.mem_range.mp hj
    have hlt' := Finset.mem_range.mp hj'
    dsimp only at hlt hlt'
    exact ofByte_ofNat_inj (by omega) (by omega) h
  · dsimp only at hr hj
    have hsame := ofByte_ofNat_inj (by omega) (by omega) h
    omega

/-- Whatever chunks are lost, up to `m` of them: the data come back. -/
theorem restoresData (hc : CauchyCoding.construct k m = some c) (hk : 0 < k)
    (hfits : k + m ≤ rsNMax) {data chunks : ℕ → Memory} {bitmap : ℕ → Bool}
    (hfew : (lostChunks (k + m) bitmap).length ≤ m)
    (hthere : c.There cfg data chunks bitmap) (stack : ℕ → ℕ → GF256) :
    c.RestoresData cfg data chunks bitmap stack := by
  have hinst : instantiate .cauchy k m = some c := hc
  obtain ⟨rfl, rfl, -⟩ := encodeMatrix_top hinst
  exact restoresData_of_generates hinst (generates hc) hk hfits hfew hthere stack

/-- Of two data chunks with two parity chunks, both can be lost. -/
theorem restoresData_of_two :
    ∃ c, CauchyCoding.construct 2 2 = some c ∧
      c.RestoresData .smallest (fun i => .place i [7, 9])
        (fun i => if i < 2 then 0 else c.chunk .smallest (fun i => .place i [7, 9]) i)
        (fun i => 2 ≤ i) 0 := by
  have hc : CauchyCoding.construct 2 2 = some ⟨.cauchy, 2, 2, gfGenCauchy1Matrix 2⟩ := rfl
  refine ⟨_, hc, restoresData hc (by decide) (by decide) (by decide) (fun i _ hi => ?_) 0⟩
  have hge : 2 ≤ i := of_decide_eq_true hi
  rw [if_neg (Nat.not_lt.mpr hge)]
  exact SameChunk.refl _

end CauchyCoding

/-! ## Powers -/

namespace GF256

/-- The byte two. -/
def two : GF256 := ofByte 2

theorem two_pow (n : ℕ) : two ^ n = ofByte (power n) := by
  induction n with
  | zero => rfl
  | succ n ih =>
    have hone : power 1 = 2 := by decide
    have hnext := gfMul_power 1 n
    rw [hone, Nat.add_comm] at hnext
    rw [pow_succ', ih]
    exact hnext

theorem two_pow_ne_zero (n : ℕ) : two ^ n ≠ 0 := by
  rw [two_pow]
  exact power_ne_zero n

/-- The powers of two go round after 255 of them only. -/
theorem two_pow_inj {i j : ℕ} (hi : i < 255) (hj : j < 255) (h : two ^ i = two ^ j) : i = j := by
  have hlog : ∀ n < 255, gfLog (gffBase.getD n 0) % 255 = n := by
    decide +kernel
  have hpower : power i = power j := by
    rw [two_pow, two_pow] at h
    exact h
  rw [← getD_gffBase (hi.trans (by decide)), ← getD_gffBase (hj.trans (by decide))] at hpower
  rw [← hlog i hi, hpower, hlog j hj]

/-- Up to the power 20, no three powers of two add up to zero. -/
theorem two_pow_add_ne_zero {i j l : ℕ} (hi : i < 21) (hj : j < 21) (hl : l < 21) (hij : i ≠ j)
    (hil : i ≠ l) (hjl : j ≠ l) : two ^ i + two ^ j + two ^ l ≠ 0 := by
  have htable : ∀ i < 21, ∀ j < 21, ∀ l < 21, i = j ∨ i = l ∨ j = l ∨
      gffBase.getD i 0 ^^^ gffBase.getD j 0 ^^^ gffBase.getD l 0 ≠ 0 := by
    decide +kernel
  have hne := (((htable i hi j hj l hl).resolve_left hij).resolve_left hil).resolve_left hjl
  rw [getD_gffBase (by omega), getD_gffBase (by omega), getD_gffBase (by omega)] at hne
  rw [two_pow, two_pow, two_pow]
  exact hne

/-- Nor do their products of two. -/
theorem two_pow_mul_add_ne_zero {i j l : ℕ} (hi : i < 21) (hj : j < 21) (hl : l < 21) (hij : i ≠ j)
    (hil : i ≠ l) (hjl : j ≠ l) :
    two ^ i * two ^ j + two ^ i * two ^ l + two ^ j * two ^ l ≠ 0 := by
  have hsum := two_pow_add_ne_zero (i := 20 - i) (j := 20 - j) (l := 20 - l) (by omega) (by omega)
    (by omega) (by omega) (by omega) (by omega)
  have hinv : ∀ n < 21, two ^ n * two ^ (20 - n) = two ^ 20 := by
    intro n hn
    rw [← pow_add, Nat.add_sub_cancel' (Nat.le_of_lt_succ hn)]
  have hscaled : (two ^ i * two ^ j + two ^ i * two ^ l + two ^ j * two ^ l) * two ^ 20 =
      two ^ i * two ^ j * two ^ l * (two ^ (20 - i) + two ^ (20 - j) + two ^ (20 - l)) := by
    linear_combination -(two ^ j * two ^ l) * hinv i hi - two ^ i * two ^ l * hinv j hj -
      two ^ i * two ^ j * hinv l hl
  refine left_ne_zero_of_mul (hscaled ▸ mul_ne_zero ?_ hsum)
  exact mul_ne_zero (mul_ne_zero (two_pow_ne_zero i) (two_pow_ne_zero j)) (two_pow_ne_zero l)

end GF256

/-- The matrix of `RSCoding`. -/
theorem gfGenRsMatrix_eq (k : ℕ) :
    gfGenRsMatrix k = systematic k fun r j => (GF256.two ^ j) ^ r := by
  funext i j
  by_cases hi : i < k
  · exact (if_pos hi).trans (if_pos hi).symm
  · have hgen : (fun gen => gfMul gen 2)^[i - k] 1 = GF256.two ^ (i - k) :=
      mul_right_iterate_apply_one GF256.two
    have hrow : (fun p => gfMul p (GF256.two ^ (i - k)))^[j] 1 = (GF256.two ^ (i - k)) ^ j :=
      mul_right_iterate_apply_one (GF256.two ^ (i - k))
    refine (if_neg hi).trans ((if_neg hi).trans ?_).symm
    rw [hgen, hrow]
    exact pow_right_comm GF256.two j (i - k)

namespace RSCoding

open IsalCoding GF256

section Columns

variable {J R : Finset ℕ} {v : ℕ → GF256} {c : ℕ}
  (hv : ∀ r ∈ R, ∑ j ∈ J, (two ^ j) ^ r * v j = 0) (hc : c ∈ J)
include hv hc

/-- A cubic polynomial with zeros at all columns but one, and without the powers of the rows that
are not there. -/
theorem eq_zero_of_cubic (hR : R ⊆ Finset.range 4) (q : ℕ → GF256) (hq : ∀ r < 4, r ∉ R → q r = 0)
    (hother : ∀ j ∈ J, j ≠ c →
      q 0 + q 1 * two ^ j + q 2 * (two ^ j) ^ 2 + q 3 * (two ^ j) ^ 3 = 0)
    (hself : q 0 + q 1 * two ^ c + q 2 * (two ^ c) ^ 2 + q 3 * (two ^ c) ^ 3 ≠ 0) : v c = 0 := by
  have hsum : ∀ x : GF256, ∑ r ∈ R, q r * x ^ r = q 0 + q 1 * x + q 2 * x ^ 2 + q 3 * x ^ 3 := by
    intro x
    rw [Finset.sum_subset hR fun r hr hnot => by rw [hq r (Finset.mem_range.mp hr) hnot, zero_mul]]
    simp only [Finset.sum_range_succ, Finset.sum_range_zero, pow_zero, pow_one, mul_one, zero_add]
  refine eq_zero_of_combination (q := q) hv hc (fun j hj hjc => ?_) ?_
  · rw [hsum]
    exact hother j hj hjc
  · rw [hsum]
    exact hself

/-- One row. -/
theorem eq_zero_of_one (hone : R.card = 1) (hcard : R.card = J.card) : v c = 0 := by
  obtain ⟨r, rfl⟩ := Finset.card_eq_one.mp hone
  obtain ⟨c', rfl⟩ := Finset.card_eq_one.mp (hcard.symm.trans hone)
  refine eq_zero_of_combination (q := 1) hv hc (fun j hj hjc => ?_) ?_
  · rw [Finset.mem_singleton.mp hj, Finset.mem_singleton.mp hc] at hjc
    exact absurd rfl hjc
  · rw [Finset.sum_singleton, Pi.one_apply, one_mul, ← pow_mul]
    exact two_pow_ne_zero _

/-- Two rows. -/
theorem eq_zero_of_two {r s l : ℕ} (hrs : r < s) (hR : R = {r, s})
    (hother : ∀ j ∈ J, j ≠ c → j = l) (hlc : (two ^ l) ^ (s - r) ≠ (two ^ c) ^ (s - r)) :
    v c = 0 := by
  have hsplit : ∀ x : GF256, x ^ s = x ^ (s - r) * x ^ r := fun x => by
    rw [← pow_add, Nat.sub_add_cancel hrs.le]
  have hsum : ∀ x : GF256, ∑ i ∈ R, (if i = s then 1 else -(two ^ l) ^ (s - r)) * x ^ i =
      (x ^ (s - r) - (two ^ l) ^ (s - r)) * x ^ r := by
    intro x
    rw [hR, Finset.sum_pair hrs.ne, if_neg hrs.ne, if_pos rfl, hsplit]
    ring
  refine eq_zero_of_combination hv hc (fun j hj hjc => (hsum _).trans ?_)
    fun hzero => ?_
  · rw [hother j hj hjc, sub_self, zero_mul]
  · rw [hsum] at hzero
    refine (mul_ne_zero (sub_ne_zero.mpr hlc.symm) ?_) hzero
    rw [← pow_mul]
    exact two_pow_ne_zero _

/-- Three rows of the first four. -/
theorem eq_zero_of_three {e a b : ℕ} (hR : R = (Finset.range 4).erase e) (he : e < 4)
    (hother : ∀ j ∈ J, j ≠ c → j = a ∨ j = b) (hac : two ^ a ≠ two ^ c) (hbc : two ^ b ≠ two ^ c)
    (hsum : e = 2 → two ^ a + two ^ b + two ^ c ≠ 0)
    (hproducts : e = 1 → two ^ a * two ^ b + two ^ a * two ^ c + two ^ b * two ^ c ≠ 0) :
    v c = 0 := by
  have hsub : R ⊆ Finset.range 4 := hR ▸ Finset.erase_subset _ _
  have hmiss : ∀ r < 4, r ∉ R → r = e := by
    intro r hr hnot
    by_contra hne
    exact hnot (hR ▸ Finset.mem_erase.mpr ⟨hne, Finset.mem_range.mpr hr⟩)
  have hfactors : (two ^ c - two ^ a) * (two ^ c - two ^ b) ≠ 0 :=
    mul_ne_zero (sub_ne_zero.mpr hac.symm) (sub_ne_zero.mpr hbc.symm)
  set x := two ^ a
  set y := two ^ b
  set z := two ^ c
  have hcase : e = 0 ∨ e = 1 ∨ e = 2 ∨ e = 3 := by omega
  have hcubic : ∀ q0 q1 q2 q3 : GF256, [q0, q1, q2, q3].getD e 0 = 0 →
      q0 + q1 * x + q2 * x ^ 2 + q3 * x ^ 3 = 0 → q0 + q1 * y + q2 * y ^ 2 + q3 * y ^ 3 = 0 →
      q0 + q1 * z + q2 * z ^ 2 + q3 * z ^ 3 ≠ 0 → v c = 0 := by
    intro q0 q1 q2 q3 hq hx hy hz
    refine eq_zero_of_cubic hv hc hsub (fun r => [q0, q1, q2, q3].getD r 0)
      (fun r hr hnot => hmiss r hr hnot ▸ hq) (fun j hj hjc => ?_) hz
    rcases hother j hj hjc with rfl | rfl
    · exact hx
    · exact hy
  rcases hcase with rfl | rfl | rfl | rfl
  · refine hcubic 0 (x * y) (-(x + y)) 1 rfl (by ring) (by ring) ?_
    have hvalue : 0 + x * y * z + -(x + y) * z ^ 2 + 1 * z ^ 3 = (z - x) * (z - y) * z := by ring
    rw [hvalue]
    exact mul_ne_zero hfactors (two_pow_ne_zero c)
  · refine hcubic (x ^ 2 * y ^ 2) 0 (x * y - (x + y) ^ 2) (x + y) rfl (by ring) (by ring) ?_
    have hvalue : x ^ 2 * y ^ 2 + 0 * z + (x * y - (x + y) ^ 2) * z ^ 2 + (x + y) * z ^ 3 =
        (z - x) * (z - y) * (x * y + x * z + y * z) := by ring
    rw [hvalue]
    exact mul_ne_zero hfactors (hproducts rfl)
  · refine hcubic (x * y * (x + y)) (x * y - (x + y) ^ 2) 0 1 rfl (by ring) (by ring) ?_
    have hvalue : x * y * (x + y) + (x * y - (x + y) ^ 2) * z + 0 * z ^ 2 + 1 * z ^ 3 =
        (z - x) * (z - y) * (x + y + z) := by ring
    rw [hvalue]
    exact mul_ne_zero hfactors (hsum rfl)
  · refine hcubic (x * y) (-(x + y)) 1 0 rfl (by ring) (by ring) ?_
    have hvalue : x * y + -(x + y) * z + 1 * z ^ 2 + 0 * z ^ 3 = (z - x) * (z - y) := by ring
    rwa [hvalue]

/-- Four rows. -/
theorem eq_zero_of_four {a b d : ℕ} (hR : R = Finset.range 4)
    (hother : ∀ j ∈ J, j ≠ c → j = a ∨ j = b ∨ j = d) (hac : two ^ a ≠ two ^ c)
    (hbc : two ^ b ≠ two ^ c) (hdc : two ^ d ≠ two ^ c) : v c = 0 := by
  set x := two ^ a
  set y := two ^ b
  set w := two ^ d
  set z := two ^ c
  have hroot : ∀ u : GF256, -(x * y * w) + (x * y + x * w + y * w) * u + -(x + y + w) * u ^ 2 +
      1 * u ^ 3 = (u - x) * (u - y) * (u - w) := fun u => by ring
  refine eq_zero_of_cubic hv hc hR.subset
    (fun r => [-(x * y * w), x * y + x * w + y * w, -(x + y + w), 1].getD r 0)
    (fun r hr hnot => absurd (hR ▸ Finset.mem_range.mpr hr) hnot) (fun j hj hjc => ?_) ?_
  · refine (hroot _).trans ?_
    rcases hother j hj hjc with rfl | rfl | rfl
    · rw [sub_self, zero_mul, zero_mul]
    · rw [sub_self, mul_zero, zero_mul]
    · rw [sub_self, mul_zero]
  · refine ne_of_eq_of_ne (hroot z) (mul_ne_zero (mul_ne_zero ?_ ?_) ?_)
    · exact sub_ne_zero.mpr hac.symm
    · exact sub_ne_zero.mpr hbc.symm
    · exact sub_ne_zero.mpr hdc.symm

end Columns

/-- The powers have no singular square part with three rows, nor with four rows up to 21
columns. -/
theorem superregular {k m : ℕ} (hk : k ≤ 32) (hm : m ≤ 4) (h : m ≤ 3 ∨ k ≤ 21) :
    Superregular k m fun r j => (two ^ j) ^ r := by
  intro J hJ R hR hcard v hv c hc
  have hlt : ∀ j ∈ J, j < k := fun j hj => Finset.mem_range.mp (hJ hj)
  have hrow : ∀ r ∈ R, r < m := fun r hr => Finset.mem_range.mp (hR hr)
  have hR4 : R ⊆ Finset.range 4 := hR.trans (Finset.range_mono hm)
  have hne : ∀ j ∈ J, j ≠ c → two ^ j ≠ two ^ c := fun j hj hjc heq =>
    hjc (two_pow_inj ((hlt j hj).trans_le (by omega)) ((hlt c hc).trans_le (by omega)) heq)
  have herase : (J.erase c).card = R.card - 1 := by rw [Finset.card_erase_of_mem hc, hcard]
  have hmem : ∀ j ∈ J, j ≠ c → j ∈ J.erase c := fun j hj hjc => Finset.mem_erase.mpr ⟨hjc, hj⟩
  have hpos : 0 < R.card := hcard ▸ Finset.card_pos.mpr ⟨c, hc⟩
  have hle : R.card ≤ 4 := (Finset.card_le_card hR4).trans (Finset.card_range 4).le
  obtain h1 | h2 | h3 | h4 : R.card = 1 ∨ R.card = 2 ∨ R.card = 3 ∨ R.card = 4 := by omega
  · exact eq_zero_of_one hv hc h1 hcard
  · rw [h2] at herase
    obtain ⟨l, hl⟩ := Finset.card_eq_one.mp herase
    have hother : ∀ j ∈ J, j ≠ c → j = l := fun j hj hjc =>
      Finset.mem_singleton.mp (hl ▸ hmem j hj hjc)
    obtain ⟨hlc, hlJ⟩ := Finset.mem_erase.mp (hl ▸ Finset.mem_singleton_self l : l ∈ J.erase c)
    have hpow : ∀ n, 0 < n → n < 4 → (two ^ l) ^ n ≠ (two ^ c) ^ n := by
      intro n hn hn4 heq
      rw [← pow_mul, ← pow_mul] at heq
      have hl32 := (hlt l hlJ).trans_le hk
      have hc32 := (hlt c hc).trans_le hk
      have hmul := two_pow_inj (by nlinarith) (by nlinarith) heq
      exact hlc (Nat.eq_of_mul_eq_mul_right hn hmul)
    obtain ⟨r, s, hrs, rfl⟩ := Finset.card_eq_two.mp h2
    have hr4 := Finset.mem_range.mp (hR4 (Finset.mem_insert_self r {s}))
    have hs4 := Finset.mem_range.mp (hR4 (Finset.mem_insert_of_mem (Finset.mem_singleton_self s)))
    rcases Nat.lt_or_gt_of_ne hrs with hlt' | hlt'
    · exact eq_zero_of_two hv hc hlt' rfl hother (hpow _ (by omega) (by omega))
    · exact eq_zero_of_two hv hc hlt' (Finset.pair_comm r s) hother (hpow _ (by omega) (by omega))
  · rw [h3] at herase
    obtain ⟨a, b, hab, hL⟩ := Finset.card_eq_two.mp herase
    have hother : ∀ j ∈ J, j ≠ c → j = a ∨ j = b := fun j hj hjc => by
      have hj' := hmem j hj hjc
      rwa [hL, Finset.mem_insert, Finset.mem_singleton] at hj'
    obtain ⟨hac, haJ⟩ := Finset.mem_erase.mp (hL ▸ Finset.mem_insert_self a {b} : a ∈ J.erase c)
    obtain ⟨hbc, hbJ⟩ := Finset.mem_erase.mp
      (hL ▸ Finset.mem_insert_of_mem (Finset.mem_singleton_self b) : b ∈ J.erase c)
    have hmissing : (Finset.range 4 \ R).card = 1 := by
      rw [Finset.card_sdiff_of_subset hR4, h3, Finset.card_range]
    obtain ⟨e, he⟩ := Finset.card_eq_one.mp hmissing
    have he4 : e ∈ Finset.range 4 \ R := he ▸ Finset.mem_singleton_self e
    have herased : R = (Finset.range 4).erase e := by
      rw [← Finset.sdiff_singleton_eq_erase, ← he, Finset.sdiff_sdiff_eq_self hR4]
    -- With a row behind the third one there are at most 21 columns.
    have hk21 : e ≠ 3 → k ≤ 21 := by
      intro he3
      have h3R : 3 ∈ R := herased ▸ Finset.mem_erase.mpr ⟨he3.symm, by decide⟩
      have hm3 := hrow 3 h3R
      omega
    have ha := hlt a haJ
    have hb := hlt b hbJ
    have hc' := hlt c hc
    refine eq_zero_of_three hv hc herased (Finset.mem_range.mp (Finset.mem_sdiff.mp he4).1) hother
      (hne a haJ hac) (hne b hbJ hbc) (fun he2 => ?_) fun he1 => ?_
    · have hk' := hk21 (by omega)
      exact two_pow_add_ne_zero (by omega) (by omega) (by omega) hab hac hbc
    · have hk' := hk21 (by omega)
      exact two_pow_mul_add_ne_zero (by omega) (by omega) (by omega) hab hac hbc
  · rw [h4] at herase
    obtain ⟨a, b, d, hab, had, hbd, hL⟩ := Finset.card_eq_three.mp herase
    have hin : ∀ j, j ∈ J.erase c ↔ j = a ∨ j = b ∨ j = d := fun j => by
      rw [hL, Finset.mem_insert, Finset.mem_insert, Finset.mem_singleton]
    obtain ⟨hac, haJ⟩ := Finset.mem_erase.mp ((hin a).mpr (Or.inl rfl))
    obtain ⟨hbc, hbJ⟩ := Finset.mem_erase.mp ((hin b).mpr (Or.inr (Or.inl rfl)))
    obtain ⟨hdc, hdJ⟩ := Finset.mem_erase.mp ((hin d).mpr (Or.inr (Or.inr rfl)))
    have hall : R = Finset.range 4 :=
      Finset.eq_of_subset_of_card_le hR4 (by rw [h4, Finset.card_range])
    exact eq_zero_of_four hv hc hall (fun j hj hjc => (hin j).mp (hmem j hj hjc))
      (hne a haJ hac) (hne b hbJ hbc) (hne d hdJ hdc)

/-! ### With 22 data chunks and four parity chunks -/

/-- Bytes that the parity chunks 0, 1 and 3 do not tell from zeros: the powers 0, 10 and 21 of two
add up to zero. -/
def hiddenByte (j : ℕ) : UInt8 :=
  if j = 0 then 1 else if j = 10 then 0x74 else if j = 21 then 0x75 else 0

/-- Data chunks that begin with these bytes. -/
def hiddenData (j : ℕ) : Memory := .place 0 [hiddenByte j]

/-- Three data chunks and the other parity chunk are lost. -/
def hiddenBitmap (k i : ℕ) : Bool := i ≠ 0 && i ≠ 10 && i ≠ 21 && i ≠ k + 2

theorem length_lostChunks_hiddenBitmap (k : ℕ) :
    (lostChunks (k + 4) (hiddenBitmap k)).length ≤ 4 := by
  have hsub : lostChunks (k + 4) (hiddenBitmap k) ⊆ [0, 10, 21, k + 2] := by
    intro i hi
    have hlost := (mem_lostChunks.mp hi).2
    simp only [hiddenBitmap, Bool.and_eq_false_iff, decide_eq_false_iff_not, not_not] at hlost
    simpa [or_assoc] using hlost
  have hnodup : (lostChunks (k + 4) (hiddenBitmap k)).Nodup := List.nodup_range.filter _
  exact (hnodup.subperm hsub).length_le

/-- No chunk that is left shows the bytes. -/
theorem dot_hiddenByte {k i : ℕ} (hk : 22 ≤ k) (hi : i < k + 4) (hleft : hiddenBitmap k i = true) :
    dot k (gfGenRsMatrix k i) (fun j => GF256.ofByte (hiddenByte j)) = 0 := by
  simp only [hiddenBitmap, Bool.and_eq_true, decide_eq_true_eq] at hleft
  obtain ⟨⟨⟨h0, h10⟩, h21⟩, hlost⟩ := hleft
  rw [gfGenRsMatrix_eq]
  by_cases hik : i < k
  · have hunit : ∀ j < k, systematic k (fun r j => (two ^ j) ^ r) i j = if i = j then 1 else 0 :=
      fun j _ => if_pos hik
    rw [dot_unit hik hunit, hiddenByte, if_neg h0, if_neg h10, if_neg h21]
    rfl
  · have hrow : dot k (systematic k (fun r j => (two ^ j) ^ r) i)
        (fun j => GF256.ofByte (hiddenByte j)) =
          ∑ j ∈ {0, 10, 21}, (two ^ j) ^ (i - k) * GF256.ofByte (hiddenByte j) := by
      have hsub : ({0, 10, 21} : Finset ℕ) ⊆ Finset.range k := by
        intro j hj
        simp only [Finset.mem_insert, Finset.mem_singleton] at hj
        exact Finset.mem_range.mpr (by omega)
      rw [dot]
      refine Eq.trans ?_ (Finset.sum_subset hsub ?_).symm
      · exact Finset.sum_congr rfl fun j _ => congrArg (· * _) (if_neg hik)
      · intro j _ hj
        simp only [Finset.mem_insert, Finset.mem_singleton, not_or] at hj
        rw [hiddenByte, if_neg hj.1, if_neg hj.2.1, if_neg hj.2.2]
        exact mul_zero _
    have hcases : i - k = 0 ∨ i - k = 1 ∨ i - k = 3 := by omega
    rw [hrow]
    rcases hcases with h | h | h <;> rw [h] <;> decide +kernel

/-- A stripe of the bytes looks like a stripe of zeros. -/
theorem there_hiddenData {c : IsalCoding} (hc : instantiate .rs c.k c.m = some c) (hk : 22 ≤ c.k)
    (hm : c.m = 4) {chunks : ℕ → Memory} (h : c.There cfg 0 chunks (hiddenBitmap c.k)) :
    c.There cfg hiddenData chunks (hiddenBitmap c.k) := by
  intro i hi hleft b hb
  rw [h i hi hleft b hb]
  have hmatrix : c.encodeMatrix = gfGenRsMatrix c.k := by
    rw [instantiate, RSCoding.construct] at hc
    split_ifs at hc
    exact congrArg IsalCoding.encodeMatrix (Option.some.inj hc).symm
  have hzero : GF256.ofByte (c.chunk cfg 0 i b) = 0 :=
    (chunk_apply hc hi hb).trans (dot_zero _)
  have hhidden : GF256.ofByte (c.chunk cfg hiddenData i b) = 0 := by
    rw [chunk_apply hc hi hb, hmatrix]
    by_cases hb0 : b = 0
    · subst hb0
      exact dot_hiddenByte hk (hm ▸ hi) hleft
    · have hcolumn : column hiddenData b = fun _ => 0 := by
        funext j
        have hlen : 0 + [hiddenByte j].length ≤ b := Nat.pos_of_ne_zero hb0
        exact Memory.place_apply_out (Or.inr hlen)
      rw [hcolumn, dot_zero]
  exact hzero.trans hhidden.symm

/-- `RSCoding::decode` gives the data back from every stripe with up to three parity chunks, and
with four up to 21 data chunks. -/
theorem restoresData_iff {k m : ℕ} {c : IsalCoding} (hc : RSCoding.construct k m = some c)
    (hk : 0 < k) (hm : m ≤ 4) :
    (∀ (data chunks : ℕ → Memory) (bitmap : ℕ → Bool) (stack : ℕ → ℕ → GF256),
      (lostChunks (k + m) bitmap).length ≤ m → c.There cfg data chunks bitmap →
        c.RestoresData cfg data chunks bitmap stack) ↔ m ≤ 3 ∨ k ≤ 21 := by
  have hinst : instantiate .rs k m = some c := hc
  obtain ⟨rfl, rfl, -⟩ := encodeMatrix_top hinst
  rw [RSCoding.construct] at hc
  split_ifs at hc with hfits
  have hmatrix : c.encodeMatrix = gfGenRsMatrix c.k :=
    congrArg IsalCoding.encodeMatrix (Option.some.inj hc).symm
  constructor
  · intro h
    by_contra hnot
    have hm4 : c.m = 4 := by omega
    have hk22 : 22 ≤ c.k := by omega
    set chunks := c.chunk cfg 0
    have hthere : c.There cfg 0 chunks (hiddenBitmap c.k) := fun i _ _ => SameChunk.refl _
    have hfew : (lostChunks (c.k + c.m) (hiddenBitmap c.k)).length ≤ c.m :=
      hm4 ▸ length_lostChunks_hiddenBitmap c.k
    obtain ⟨out, hout, hzero⟩ := h 0 chunks _ 0 hfew hthere
    obtain ⟨out', hout', hhidden⟩ :=
      h hiddenData chunks _ 0 hfew (there_hiddenData hinst hk22 hm4 hthere)
    cases hout.symm.trans hout'
    -- One result cannot be both stripes.
    have hpos : 0 < cfg.chunkSize := lt_of_lt_of_le (by decide) cfg.le_chunkSize
    have hbyte : (0 : Memory) 0 = hiddenData 0 0 :=
      (hzero 0 hk 0 hpos).symm.trans (hhidden 0 hk 0 hpos)
    exact absurd hbyte (by decide)
  · intro h data chunks bitmap stack hfew hthere
    have hgen : c.Generates := generates_of_superregular
      (hmatrix.trans (gfGenRsMatrix_eq c.k)) (superregular (by rw [rsNMax] at hfits; omega) hm h)
    exact restoresData_of_generates hinst hgen hk (by omega) hfew hthere stack

/-- 22 data chunks with four parity chunks are too many. -/
theorem restoresData_iff_of_22 :
    (∀ (data chunks : ℕ → Memory) (bitmap : ℕ → Bool) (stack : ℕ → ℕ → GF256),
      (lostChunks (22 + 4) bitmap).length ≤ 4 →
        (⟨.rs, 22, 4, gfGenRsMatrix 22⟩ : IsalCoding).There .smallest data chunks bitmap →
          (⟨.rs, 22, 4, gfGenRsMatrix 22⟩ : IsalCoding).RestoresData .smallest data chunks bitmap
            stack) ↔ 4 ≤ 3 ∨ 22 ≤ 21 :=
  restoresData_iff rfl (by decide) (by decide)

end RSCoding

end MemEC.Common
