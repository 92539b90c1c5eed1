import Mathlib.Algebra.BigOperators.Ring.Finset
import Mathlib.Algebra.BigOperators.Intervals
import Mathlib.Algebra.Field.Basic
import Mathlib.Logic.Equiv.Basic
import Mathlib.Tactic

/-!
# Gauss-Jordan elimination

A matrix and a second one next to it are changed by row operations until the
first is the identity. What a row operation keeps is the set of solutions of
the equations that the rows stand for, so that at the end the second matrix
solves the equations of the first one.

Entries are found by row and column and only those below the dimension belong
to the matrix, as in a buffer that is larger than the matrix it holds.
-/

namespace MemEC.Lib

variable {F : Type*} [Field F] {n : ℕ}

/-- The product of a row of length `n` and a vector. -/
def dot (n : ℕ) (row v : ℕ → F) : F := ∑ c ∈ Finset.range n, row c * v c

theorem dot_congr {row row' v v' : ℕ → F} (hrow : ∀ c < n, row c = row' c)
    (hv : ∀ c < n, v c = v' c) : dot n row v = dot n row' v' := by
  apply Finset.sum_congr rfl
  intro c hc
  rw [hrow c (Finset.mem_range.mp hc), hv c (Finset.mem_range.mp hc)]

@[simp] theorem dot_zero (row : ℕ → F) : dot n row (fun _ => 0) = 0 := by
  simp [dot]

@[simp] theorem zero_dot (v : ℕ → F) : dot n (fun _ => 0) v = 0 := by
  simp [dot]

theorem dot_scale (row v : ℕ → F) (x : F) :
    dot n (fun c => row c * x) v = dot n row v * x := by
  unfold dot
  rw [Finset.sum_mul]
  apply Finset.sum_congr rfl
  intro c _
  ring

theorem dot_sub_mul (row other v : ℕ → F) (x : F) :
    dot n (fun c => row c - x * other c) v = dot n row v - x * dot n other v := by
  unfold dot
  rw [Finset.mul_sum, ← Finset.sum_sub_distrib]
  apply Finset.sum_congr rfl
  intro c _
  ring

/-- A unit row picks an entry of the vector. -/
theorem dot_unit {row v : ℕ → F} {r : ℕ} (hr : r < n)
    (hrow : ∀ c < n, row c = if r = c then 1 else 0) : dot n row v = v r := by
  rw [dot, Finset.sum_eq_single_of_mem r (Finset.mem_range.mpr hr)]
  · rw [hrow r hr, if_pos rfl, one_mul]
  · intro c hc hne
    rw [hrow c (Finset.mem_range.mp hc), if_neg (Ne.symm hne), zero_mul]

/-- The rows determine every vector they are multiplied with. -/
def Independent (n : ℕ) (a : ℕ → ℕ → F) : Prop :=
  ∀ v : ℕ → F, (∀ r < n, dot n (a r) v = 0) → ∀ c < n, v c = 0

/-! ## Row operations -/

namespace GaussJordan

/-- The matrix and the one next to it. -/
structure Pair (F : Type*) where
  left : ℕ → ℕ → F
  right : ℕ → ℕ → F

namespace Pair

/-- `v` and `w` solve the equations of the rows. -/
def Solved (n : ℕ) (s : Pair F) (v w : ℕ → F) : Prop :=
  ∀ r < n, dot n (s.left r) v = dot n (s.right r) w

/-- The rows `i` and `j` exchanged. -/
def swapRows (s : Pair F) (i j : ℕ) : Pair F where
  left r := s.left (Equiv.swap i j r)
  right r := s.right (Equiv.swap i j r)

/-- Row `i` multiplied by `x`. -/
def scaleRow (s : Pair F) (i : ℕ) (x : F) : Pair F where
  left := Function.update s.left i fun c => s.left i c * x
  right := Function.update s.right i fun c => s.right i c * x

/-- The multiple of row `i` that clears column `i` subtracted from the other rows. -/
def clearColumn (n : ℕ) (s : Pair F) (i : ℕ) : Pair F where
  left r := if r < n ∧ r ≠ i then fun c => s.left r c - s.left r i * s.left i c else s.left r
  right r := if r < n ∧ r ≠ i then fun c => s.right r c - s.left r i * s.right i c else s.right r

variable {s : Pair F} {i j : ℕ} {v w : ℕ → F}

theorem swap_lt (hi : i < n) (hj : j < n) {r : ℕ} (hr : r < n) : Equiv.swap i j r < n := by
  rw [Equiv.swap_apply_def]
  split_ifs <;> assumption

theorem solved_swapRows (hi : i < n) (hj : j < n) :
    (s.swapRows i j).Solved n v w ↔ s.Solved n v w := by
  constructor
  · intro h r hr
    have hrow := h (Equiv.swap i j r) (swap_lt hi hj hr)
    simpa only [swapRows, Equiv.swap_apply_self] using hrow
  · intro h r hr
    exact h (Equiv.swap i j r) (swap_lt hi hj hr)

theorem solved_scaleRow {x : F} (hx : x ≠ 0) :
    (s.scaleRow i x).Solved n v w ↔ s.Solved n v w := by
  apply forall₂_congr
  intro r _
  by_cases hr : r = i
  · subst hr
    simp only [scaleRow, Function.update_self, dot_scale]
    exact mul_left_inj' hx
  · simp only [scaleRow, Function.update_of_ne hr]

theorem solved_clearColumn (hi : i < n) :
    (s.clearColumn n i).Solved n v w ↔ s.Solved n v w := by
  have hself : dot n ((s.clearColumn n i).left i) v = dot n ((s.clearColumn n i).right i) w ↔
      dot n (s.left i) v = dot n (s.right i) w := by
    simp [clearColumn]
  have hother : dot n (s.left i) v = dot n (s.right i) w → ∀ r < n, r ≠ i →
      (dot n ((s.clearColumn n i).left r) v = dot n ((s.clearColumn n i).right r) w ↔
        dot n (s.left r) v = dot n (s.right r) w) := by
    intro hrow r hr hne
    simp only [clearColumn, if_pos (And.intro hr hne), dot_sub_mul, hrow]
    exact sub_left_inj
  constructor
  · intro h r hr
    have hrow := hself.mp (h i hi)
    by_cases hne : r = i
    · subst hne
      exact hrow
    · exact (hother hrow r hr hne).mp (h r hr)
  · intro h r hr
    by_cases hne : r = i
    · subst hne
      exact hself.mpr (h r hr)
    · exact (hother (h i hi) r hr hne).mpr (h r hr)

end Pair

/-! ## Columns of the identity -/

/-- The columns before `i` are those of the identity. -/
def UnitColumns (n : ℕ) (a : ℕ → ℕ → F) (i : ℕ) : Prop :=
  ∀ c < i, ∀ r < n, a r c = if r = c then 1 else 0

variable {s : Pair F} {i : ℕ}

theorem UnitColumns.swapRows {j : ℕ} (h : UnitColumns n s.left i) (hij : i ≤ j) (hj : j < n) :
    UnitColumns n (s.swapRows i j).left i := by
  intro c hc r hr
  have hrow : ∀ r' < n, (r' = c ↔ r = c) → s.left r' c = if r = c then 1 else 0 := by
    intro r' hr' hiff
    rw [h c hc r' hr', if_congr hiff rfl rfl]
  apply hrow _ (Pair.swap_lt (by omega) hj hr)
  rw [Equiv.swap_apply_def]
  split_ifs <;> omega

/-- Scaling and clearing adds column `i`. -/
theorem UnitColumns.clearColumn (h : UnitColumns n s.left i) (hi : i < n)
    (hne : s.left i i ≠ 0) :
    UnitColumns n ((s.scaleRow i (s.left i i)⁻¹).clearColumn n i).left (i + 1) := by
  intro c hc r hr
  have hpivot : s.left i c * (s.left i i)⁻¹ = if i = c then 1 else 0 := by
    by_cases hci : i = c
    · subst hci
      rw [if_pos rfl, mul_inv_cancel₀ hne]
    · rw [h c (by omega) i hi, if_neg hci, zero_mul]
  by_cases hri : r = i
  · subst hri
    simp [Pair.clearColumn, Pair.scaleRow, hpivot]
  · simp only [Pair.clearColumn, Pair.scaleRow, ne_eq, hri, hr, not_false_eq_true, and_self,
      if_true, Function.update_self, Function.update_of_ne hri, hpivot]
    by_cases hci : i = c
    · subst hci
      rw [if_pos rfl, if_neg hri, mul_one, sub_self]
    · rw [if_neg hci, mul_zero, sub_zero, h c (by omega) r hr]

/-! ## The elimination -/

variable [DecidableEq F]

/-- The first row from `i` on with an entry in column `i`. -/
def pivot (n i : ℕ) (a : ℕ → ℕ → F) : Option ℕ :=
  (List.range' i (n - i)).find? fun j => a j i ≠ 0

/-- One column: a row with an entry in it is moved to the diagonal, scaled, and
subtracted from the others. -/
def step (n : ℕ) (s : Pair F) (i : ℕ) : Option (Pair F) :=
  (pivot n i s.left).map fun j =>
    let s := s.swapRows i j
    (s.scaleRow i (s.left i i)⁻¹).clearColumn n i

/-- All columns. -/
def reduce (n : ℕ) (s : Pair F) : Option (Pair F) := (List.range n).foldlM (step n) s

/-- What holds before column `i`. The equations are those of the start. -/
structure Reduced (n : ℕ) (start s : Pair F) (i : ℕ) : Prop where
  solved : ∀ v w, s.Solved n v w ↔ start.Solved n v w
  unit : UnitColumns n s.left i
  behind : ∀ r, n ≤ r → s.right r = start.right r

variable {start : Pair F}

theorem exists_pivot (h : Reduced n start s i) (hi : i < n)
    (hstart : ∀ v, start.Solved n v (fun _ => 0) → ∀ c < n, v c = 0) :
    ∃ j, pivot n i s.left = some j := by
  by_contra hnone
  have hzero : ∀ j, i ≤ j → j < n → s.left j i = 0 := by
    intro j hij hj
    by_contra hne
    apply hnone
    have hmem : j ∈ List.range' i (n - i) := by
      rw [List.mem_range'_1]
      omega
    exact Option.isSome_iff_exists.mp (List.find?_isSome.mpr ⟨j, hmem, by simpa using hne⟩)
  -- The column is a combination of the columns before it.
  let v : ℕ → F := fun c => if c < i then - s.left c i else if c = i then 1 else 0
  have hv : s.Solved n v (fun _ => 0) := by
    intro r hr
    have hterm : ∀ c ∈ Finset.range n, s.left r c * v c =
        (if c = r then if r < i then - s.left r i else 0 else 0) +
          if c = i then s.left r i else 0 := by
      intro c _
      by_cases hc : c < i
      · simp only [v, if_pos hc, h.unit c hc r hr, if_neg hc.ne]
        by_cases hrc : r = c
        · subst hrc
          simp [hc]
        · simp [hrc, Ne.symm hrc]
      · by_cases hci : c = i
        · subst hci
          by_cases hrc : c = r
          · simp [v, hrc]
          · simp [v, hrc]
        · by_cases hrc : c = r
          · simp [v, hc, hci, hrc ▸ hc]
          · simp [v, hc, hci, hrc]
    rw [dot_zero, dot, Finset.sum_congr rfl hterm, Finset.sum_add_distrib, Finset.sum_ite_eq',
      Finset.sum_ite_eq', if_pos (Finset.mem_range.mpr hr), if_pos (Finset.mem_range.mpr hi)]
    by_cases hri : r < i
    · rw [if_pos hri, neg_add_cancel]
    · rw [if_neg hri, zero_add, hzero r (by omega) hr]
  have hone := hstart v ((h.solved v _).mp hv) i hi
  simp [v] at hone

theorem Reduced.step (h : Reduced n start s i) (hi : i < n) {j : ℕ}
    (hj : pivot n i s.left = some j) :
    ∃ t, GaussJordan.step n s i = some t ∧ Reduced n start t (i + 1) := by
  have hmem := List.mem_range'_1.mp (List.mem_of_find?_eq_some hj)
  have hjn : j < n := by omega
  have hne : (s.swapRows i j).left i i ≠ 0 := by
    have hfound := List.find?_some hj
    simpa [Pair.swapRows] using hfound
  have hstep : GaussJordan.step n s i = some
      (((s.swapRows i j).scaleRow i ((s.swapRows i j).left i i)⁻¹).clearColumn n i) := by
    simp only [GaussJordan.step, hj, Option.map_some]
  refine ⟨_, hstep, ?_, ?_, ?_⟩
  · intro v w
    rw [Pair.solved_clearColumn hi, Pair.solved_scaleRow (inv_ne_zero hne),
      Pair.solved_swapRows hi hjn]
    exact h.solved v w
  · exact UnitColumns.clearColumn (UnitColumns.swapRows h.unit hmem.1 hjn) hi hne
  · intro r hr
    have hri : r ≠ i := by omega
    have hrj : r ≠ j := by omega
    simp only [Pair.clearColumn, Pair.scaleRow, Pair.swapRows, Nat.not_lt.mpr hr, false_and,
      if_false, Function.update_of_ne hri, Equiv.swap_apply_of_ne_of_ne hri hrj]
    exact h.behind r hr

theorem Reduced.foldlM (h : Reduced n start s 0)
    (hstart : ∀ v, start.Solved n v (fun _ => 0) → ∀ c < n, v c = 0) {m : ℕ} (hm : m ≤ n) :
    ∃ t, (List.range m).foldlM (GaussJordan.step n) s = some t ∧ Reduced n start t m := by
  induction m with
  | zero => exact ⟨s, rfl, h⟩
  | succ m ih =>
    obtain ⟨t, ht, hred⟩ := ih (by omega)
    obtain ⟨j, hj⟩ := exists_pivot hred (by omega) hstart
    obtain ⟨u, hu, hred'⟩ := hred.step (by omega) hj
    refine ⟨u, ?_, hred'⟩
    rw [List.range_succ, List.foldlM_append, ht]
    simp [hu]

/-- From independent rows and the identity next to them, the elimination goes through,
and the second matrix then solves the equations of the rows. -/
theorem reduce_spec {a b : ℕ → ℕ → F} (ha : Independent n a)
    (hb : ∀ r < n, ∀ c < n, b r c = if r = c then 1 else 0) :
    ∃ t, reduce n ⟨a, b⟩ = some t ∧
      (∀ v w, (∀ r < n, dot n (a r) v = w r) ↔ ∀ c < n, v c = dot n (t.right c) w) ∧
      ∀ r, n ≤ r → t.right r = b r := by
  have hright : ∀ v w, (⟨a, b⟩ : Pair F).Solved n v w ↔ ∀ r < n, dot n (a r) v = w r := by
    intro v w
    apply forall₂_congr
    intro r hr
    rw [dot_unit hr (hb r hr)]
  have hstart : ∀ v, (⟨a, b⟩ : Pair F).Solved n v (fun _ => 0) → ∀ c < n, v c = 0 :=
    fun v hv => ha v ((hright v _).mp hv)
  have hzero : Reduced n ⟨a, b⟩ (⟨a, b⟩ : Pair F) 0 :=
    ⟨fun _ _ => Iff.rfl, fun c hc => absurd hc (Nat.not_lt_zero c), fun _ _ => rfl⟩
  obtain ⟨t, ht, hred⟩ := hzero.foldlM hstart le_rfl
  refine ⟨t, ht, ?_, hred.behind⟩
  intro v w
  rw [← hright, ← hred.solved]
  apply forall₂_congr
  intro r hr
  rw [dot_unit hr (fun c hc => hred.unit c hc r hr)]

end GaussJordan

end MemEC.Lib
