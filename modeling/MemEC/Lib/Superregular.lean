import MemEC.Lib.GaussJordan
import Mathlib.LinearAlgebra.Lagrange

/-!
# Matrices with the identity on top

A code whose matrix has the identity on top gives the data back from any `k`
rows when no square part of the rows below is singular. The inverses of the
differences of two sequences are such rows. For powers, a combination of the
rows that is zero at all columns but one is enough.
-/

namespace MemEC.Lib

open Polynomial

variable {F : Type*} [Field F]

/-- The identity, and behind it the rows of `a`. -/
def systematic (k : ℕ) (a : ℕ → ℕ → F) (i j : ℕ) : F :=
  if i < k then if i = j then 1 else 0 else a (i - k) j

/-- No square part of the matrix with `m` rows and `k` columns is singular. -/
def Superregular (k m : ℕ) (a : ℕ → ℕ → F) : Prop :=
  ∀ J ⊆ Finset.range k, ∀ R ⊆ Finset.range m, R.card = J.card →
    ∀ v : ℕ → F, (∀ r ∈ R, ∑ j ∈ J, a r j * v j = 0) → ∀ j ∈ J, v j = 0

variable {k m : ℕ} {a : ℕ → ℕ → F}

/-- Any `k` rows determine the data. -/
theorem Superregular.independent (h : Superregular k m a) {rows : ℕ → ℕ}
    (hlt : ∀ r < k, rows r < k + m) (hinj : ∀ r < k, ∀ r' < k, rows r = rows r' → r = r') :
    Independent k fun r => systematic k a (rows r) := by
  intro v hv
  set S := (Finset.range k).image rows
  set J := Finset.range k \ S
  set R := (S \ Finset.range k).image (· - k)
  have hcardS : S.card = k := by
    rw [Finset.card_image_of_injOn, Finset.card_range]
    intro r hr r' hr' heq
    exact hinj r (Finset.mem_range.mp hr) r' (Finset.mem_range.mp hr') heq
  have hbelow : ∀ i ∈ S \ Finset.range k, k ≤ i := by
    intro i hi
    have hnot := (Finset.mem_sdiff.mp hi).2
    rwa [Finset.mem_range, not_lt] at hnot
  have hcardR : R.card = J.card := by
    have hR : R.card = (S \ Finset.range k).card := by
      refine Finset.card_image_of_injOn fun i hi i' hi' heq => ?_
      have h1 := hbelow i hi
      have h2 := hbelow i' hi'
      change i - k = i' - k at heq
      omega
    rw [hR, Finset.card_sdiff, Finset.card_sdiff, Finset.inter_comm, hcardS, Finset.card_range]
  have htop : ∀ j ∈ Finset.range k, j ∉ J → v j = 0 := by
    intro j hj hnot
    have hmem : j ∈ S := by
      by_contra hnotS
      exact hnot (Finset.mem_sdiff.mpr ⟨hj, hnotS⟩)
    obtain ⟨r, hr, rfl⟩ := Finset.mem_image.mp hmem
    rw [← hv r (Finset.mem_range.mp hr)]
    exact (dot_unit (Finset.mem_range.mp hj) fun c _ => if_pos (Finset.mem_range.mp hj)).symm
  have hbottom : ∀ r ∈ R, ∑ j ∈ J, a r j * v j = 0 := by
    intro r hr
    obtain ⟨i, hi, rfl⟩ := Finset.mem_image.mp hr
    obtain ⟨q, hq, rfl⟩ := Finset.mem_image.mp (Finset.mem_sdiff.mp hi).1
    have hge := hbelow _ hi
    have hrow : dot k (a (rows q - k)) v = 0 := by
      rw [← hv q (Finset.mem_range.mp hq)]
      exact dot_congr (fun c _ => (if_neg (Nat.not_lt.mpr hge)).symm) fun _ _ => rfl
    rw [← hrow, dot]
    refine Finset.sum_subset Finset.sdiff_subset fun j hj hnot => ?_
    rw [htop j hj hnot, mul_zero]
  have hR : R ⊆ Finset.range m := by
    intro r hr
    obtain ⟨i, hi, rfl⟩ := Finset.mem_image.mp hr
    obtain ⟨q, hq, rfl⟩ := Finset.mem_image.mp (Finset.mem_sdiff.mp hi).1
    have hge := hbelow _ hi
    have hrow := hlt q (Finset.mem_range.mp hq)
    exact Finset.mem_range.mpr (by omega)
  intro j hj
  by_cases hmem : j ∈ J
  · exact h J Finset.sdiff_subset R hR hcardR v hbottom j hmem
  · exact htop j (Finset.mem_range.mpr hj) hmem

/-- The inverses of differences: a combination of the columns is a rational function with as many
zeros as it has poles. -/
theorem superregular_cauchy {x y : ℕ → F} (hx : Set.InjOn x (Finset.range m))
    (hy : Set.InjOn y (Finset.range k)) (hxy : ∀ r < m, ∀ j < k, x r ≠ y j) :
    Superregular k m fun r j => (x r - y j)⁻¹ := by
  intro J hJ R hR hcard v hv c hc
  set P : F[X] := ∑ j ∈ J, C (v j) * Lagrange.nodal (J.erase j) y
  have hdegree : P.degree < R.card := by
    rw [hcard, ← Polynomial.mem_degreeLT]
    refine Submodule.sum_mem _ fun j hj => Polynomial.mem_degreeLT.mpr ?_
    have hpos := Finset.card_pos.mpr ⟨j, hj⟩
    calc (C (v j) * Lagrange.nodal (J.erase j) y).degree
        ≤ (Lagrange.nodal (J.erase j) y).degree := by
          rw [Polynomial.degree_mul]
          exact (add_le_add_left Polynomial.degree_C_le _).trans (zero_add _).le
      _ = ((J.card - 1 : ℕ) : WithBot ℕ) := by
          rw [Lagrange.degree_nodal, Finset.card_erase_of_mem hj]
      _ < J.card := by exact_mod_cast Nat.sub_lt hpos Nat.one_pos
  have hne : ∀ r ∈ R, ∀ j ∈ J, x r - y j ≠ 0 := fun r hr j hj =>
    sub_ne_zero.mpr (hxy r (Finset.mem_range.mp (hR hr)) j (Finset.mem_range.mp (hJ hj)))
  have hroots : ∀ r ∈ R, P.eval (x r) = 0 := by
    intro r hr
    have hterm : ∀ j ∈ J, (C (v j) * Lagrange.nodal (J.erase j) y).eval (x r) =
        (Lagrange.nodal J y).eval (x r) * ((x r - y j)⁻¹ * v j) := by
      intro j hj
      rw [Polynomial.eval_mul, Polynomial.eval_C, Lagrange.nodal_eq_mul_nodal_erase hj,
        Polynomial.eval_mul, Polynomial.eval_sub, Polynomial.eval_X, Polynomial.eval_C]
      field_simp [hne r hr j hj]
    rw [Polynomial.eval_finsetSum, Finset.sum_congr rfl hterm, ← Finset.mul_sum, hv r hr, mul_zero]
  have hzero : P = 0 := Polynomial.eq_zero_of_degree_lt_of_eval_index_eq_zero R
    (hx.mono fun r hr => hR hr) hdegree hroots
  have hpole : P.eval (y c) = v c * (Lagrange.nodal (J.erase c) y).eval (y c) := by
    rw [Polynomial.eval_finsetSum, Finset.sum_eq_single_of_mem c hc]
    · rw [Polynomial.eval_mul, Polynomial.eval_C]
    · intro j hj hjc
      rw [Polynomial.eval_mul, Lagrange.eval_nodal_at_node (Finset.mem_erase.mpr ⟨hjc.symm, hc⟩),
        mul_zero]
  rw [hzero, Polynomial.eval_zero] at hpole
  refine (mul_eq_zero.mp hpole.symm).resolve_right (Lagrange.eval_nodal_not_at_node ?_)
  intro j hj heq
  obtain ⟨hjc, hj⟩ := Finset.mem_erase.mp hj
  exact hjc (hy (hJ hj) (hJ hc) heq.symm)

/-- A combination of the rows that picks out one column. -/
theorem eq_zero_of_combination {J R : Finset ℕ} {v q : ℕ → F}
    (hv : ∀ r ∈ R, ∑ j ∈ J, a r j * v j = 0) {c : ℕ} (hc : c ∈ J)
    (hother : ∀ j ∈ J, j ≠ c → ∑ r ∈ R, q r * a r j = 0)
    (hself : ∑ r ∈ R, q r * a r c ≠ 0) : v c = 0 := by
  have hsum : ∑ j ∈ J, (∑ r ∈ R, q r * a r j) * v j = 0 := by
    calc ∑ j ∈ J, (∑ r ∈ R, q r * a r j) * v j
        = ∑ j ∈ J, ∑ r ∈ R, q r * (a r j * v j) := by
          simp only [Finset.sum_mul, mul_assoc]
      _ = ∑ r ∈ R, q r * ∑ j ∈ J, a r j * v j := by
          rw [Finset.sum_comm]
          simp only [Finset.mul_sum]
      _ = 0 := Finset.sum_eq_zero fun r hr => by rw [hv r hr, mul_zero]
  rw [Finset.sum_eq_single_of_mem c hc fun j hj hjc => by rw [hother j hj hjc, zero_mul]] at hsum
  exact (mul_eq_zero.mp hsum).resolve_left hself

end MemEC.Lib
