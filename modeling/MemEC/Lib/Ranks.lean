import Mathlib.Data.Nat.Nth
import Mathlib.Tactic

/-!
# Members of a finite set by their rank

The rank of a member is the number of smaller members. Ranks and members
determine each other, so that a list of the members in increasing order can be
rebuilt, or an entry of it be found, by counting.
-/

namespace MemEC.Lib

variable {s : Finset ℕ} {j c : ℕ}

/-- The number of members below `j`. -/
def rank (s : Finset ℕ) (j : ℕ) : ℕ := Nat.count (· ∈ s) j

/-- The member with `c` members below it. -/
noncomputable def ranked (s : Finset ℕ) (c : ℕ) : ℕ := Nat.nth (· ∈ s) c

theorem toFinset_mem (hf : (Set.ofPred (· ∈ s)).Finite) : hf.toFinset = s := by
  ext j
  exact hf.mem_toFinset

theorem ranked_mem (hc : c < s.card) : ranked s c ∈ s :=
  Nat.nth_mem c fun hf => (toFinset_mem hf).symm ▸ hc

theorem rank_ranked (hc : c < s.card) : rank s (ranked s c) = c :=
  Nat.count_nth fun hf => (toFinset_mem hf).symm ▸ hc

theorem ranked_rank (hj : j ∈ s) : ranked s (rank s j) = j :=
  Nat.nth_count hj

theorem rank_lt_card (hj : j ∈ s) : rank s j < s.card := by
  obtain ⟨c, hc, hnth⟩ := Nat.exists_lt_card_nth_eq hj
  have hf : (Set.ofPred (· ∈ s)).Finite := s.finite_toSet
  have hcard : c < s.card := toFinset_mem hf ▸ hc hf
  rw [← hnth]
  exact (rank_ranked hcard).trans_lt hcard

@[simp] theorem rank_zero : rank s 0 = 0 := Nat.count_zero _

theorem rank_succ : rank s (j + 1) = rank s j + if j ∈ s then 1 else 0 := Nat.count_succ _ _

theorem rank_le_card : rank s j ≤ s.card := by
  induction j with
  | zero => exact Nat.zero_le _
  | succ j ih =>
    rw [rank_succ]
    by_cases hj : j ∈ s
    · rw [if_pos hj]
      exact rank_lt_card hj
    · rwa [if_neg hj]

/-- Below a bound of all members there are all of them. -/
theorem rank_eq_card (h : ∀ i ∈ s, i < j) : rank s j = s.card := by
  rw [rank, Nat.count_eq_card_filter_range]
  congr 1
  ext i
  simpa using h i

end MemEC.Lib
