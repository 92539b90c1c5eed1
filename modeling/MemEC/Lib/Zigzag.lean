import Mathlib.Data.ZMod.Basic
import Mathlib.Tactic

/-!
# Walks modulo a prime

A walk starts next to the row `p - 1`, which is not there, and takes the same
stride, modulo `p`, from each row to the next one. As `p` is a prime it does
not come back to a row before it has been to all of them. Two walks with
opposite strides divide the rows among them.
-/

namespace MemEC.Lib

variable {p : ℕ} {d : ZMod p}

/-- The first `n` steps with stride `d` lead through row `r`. -/
def Visited (d : ZMod p) (n r : ℕ) : Prop := ∃ m, 0 < m ∧ m ≤ n ∧ (r : ZMod p) = -1 + m * d

theorem not_visited_zero (r : ℕ) : ¬ Visited d 0 r := by
  rintro ⟨m, hpos, hle, -⟩
  omega

theorem visited_succ {n r : ℕ} :
    Visited d (n + 1) r ↔ Visited d n r ∨ (r : ZMod p) = -1 + (n + 1 : ℕ) * d := by
  constructor
  · rintro ⟨m, hpos, hle, hr⟩
    rcases Nat.lt_or_ge n m with hlt | hge
    · obtain rfl : m = n + 1 := by omega
      exact Or.inr hr
    · exact Or.inl ⟨m, hpos, hge, hr⟩
  · rintro (⟨m, hpos, hle, hr⟩ | hr)
    · exact ⟨m, hpos, by omega, hr⟩
    · exact ⟨n + 1, Nat.succ_pos n, le_rfl, hr⟩

theorem natCast_inj_of_lt {m n : ℕ} (hm : m < p) (hn : n < p) (h : (m : ZMod p) = n) : m = n := by
  rw [ZMod.natCast_eq_natCast_iff', Nat.mod_eq_of_lt hm, Nat.mod_eq_of_lt hn] at h
  exact h

theorem natCast_pred (hp : 0 < p) : ((p - 1 : ℕ) : ZMod p) = -1 := by
  rw [Nat.cast_sub hp, ZMod.natCast_self, Nat.cast_one, zero_sub]

variable [Fact p.Prime]

theorem natCast_mul_inj {m n : ℕ} (hd : d ≠ 0) (hm : m < p) (hn : n < p)
    (h : (m : ZMod p) * d = n * d) : m = n :=
  natCast_inj_of_lt hm hn (mul_right_cancel₀ hd h)

/-- A step leads to a new row. -/
theorem not_visited_next {n r : ℕ} (hd : d ≠ 0) (hn : n + 1 < p)
    (hr : (r : ZMod p) = -1 + (n + 1 : ℕ) * d) : ¬ Visited d n r := by
  rintro ⟨m, -, hle, hm⟩
  have heq : ((n + 1 : ℕ) : ZMod p) * d = m * d := add_left_cancel (hr.symm.trans hm)
  have := natCast_mul_inj hd hn (by omega) heq
  omega

/-- A step of the second walk leads to a row that the first walk has not been to. -/
theorem not_visited_opposite {n m r : ℕ} (hd : d ≠ 0) (hn : n + (m + 1) < p)
    (hr : (r : ZMod p) = -1 + (m + 1 : ℕ) * -d) : ¬ Visited d n r := by
  rintro ⟨m', -, hle, hm'⟩
  have heq : ((m + 1 + m' : ℕ) : ZMod p) * d = (0 : ℕ) * d := by
    have hcancel := add_left_cancel (hr.symm.trans hm')
    push_cast at hcancel ⊢
    linear_combination -hcancel
  have := natCast_mul_inj hd (by omega) (by omega) heq
  omega

/-- No step of a walk leads to the row that is not there. -/
theorem ne_pred_of_step {n r : ℕ} (hd : d ≠ 0) (hn : n + 1 < p)
    (hr : (r : ZMod p) = -1 + (n + 1 : ℕ) * d) : r ≠ p - 1 := by
  rintro rfl
  rw [natCast_pred (by omega)] at hr
  have heq : ((n + 1 : ℕ) : ZMod p) * d = (0 : ℕ) * d := by
    push_cast at hr ⊢
    linear_combination -hr
  have := natCast_mul_inj hd hn (by omega) heq
  omega

/-- The row before a step is the one that is not there, or one where the walk has been. -/
theorem previous_visited {n r : ℕ} (hr : r < p) (h : (r : ZMod p) = -1 + (n : ℕ) * d) :
    r = p - 1 ∨ Visited d n r := by
  rcases Nat.eq_zero_or_pos n with rfl | hpos
  · rw [Nat.cast_zero, zero_mul, add_zero, ← natCast_pred (by omega)] at h
    exact Or.inl (natCast_inj_of_lt hr (by omega) h)
  · exact Or.inr ⟨n, hpos, le_rfl, h⟩

/-- Together the two walks lead through every row. -/
theorem visited_or_opposite {n m r : ℕ} (hd : d ≠ 0) (hsum : n + m = p - 1) (hr : r < p - 1) :
    Visited d n r ∨ Visited (-d) m r := by
  have hp : 0 < p := by omega
  have : NeZero p := ⟨hp.ne'⟩
  set x := (((r : ZMod p) + 1) / d).val with hx
  have hval : (x : ZMod p) * d = r + 1 := by
    rw [hx, ZMod.natCast_zmod_val, div_mul_cancel₀ _ hd]
  have hlt : x < p := ZMod.val_lt _
  have hpos : x ≠ 0 := by
    intro h0
    rw [h0, Nat.cast_zero, zero_mul] at hval
    have heq : (r : ZMod p) = ((p - 1 : ℕ) : ZMod p) := by
      rw [natCast_pred hp]
      linear_combination -hval
    have := natCast_inj_of_lt (by omega) (by omega) heq
    omega
  rcases Nat.lt_or_ge n x with hgt | hle
  · refine Or.inr ⟨p - x, by omega, by omega, ?_⟩
    rw [Nat.cast_sub hlt.le, ZMod.natCast_self]
    linear_combination -hval
  · refine Or.inl ⟨x, by omega, hle, ?_⟩
    linear_combination -hval

theorem visited_all {r : ℕ} (hd : d ≠ 0) (hr : r < p - 1) : Visited d (p - 1) r := by
  rcases visited_or_opposite hd (n := p - 1) (m := 0) (by omega) hr with h | h
  · exact h
  · exact absurd h (not_visited_zero r)

end MemEC.Lib
