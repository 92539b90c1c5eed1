import Mathlib.Tactic

/-!
# Selection sort

A round of selection sort finds the place `m` of a least element among those
from place `i` on, and exchanges the elements at `i` and `m`. A round permutes
the list and makes its sorted part one longer; the loop that searches for the
least element is a fold over the places behind `i`.
-/

namespace MemEC.Lib

variable {α β : Type} [LinearOrder β] {key : α → β} {l : List α} {i m : ℕ}

/-- The elements of `l` at `i` and `m` exchanged. -/
def exchange (l : List α) (i m : ℕ) (hi : i < l.length) (hm : m < l.length) : List α :=
  (l.set i l[m]).set m l[i]

@[simp] theorem length_exchange (hi : i < l.length) (hm : m < l.length) :
    (exchange l i m hi hm).length = l.length := by
  simp [exchange]

theorem exchange_perm (hi : i < l.length) (hm : m < l.length) :
    (exchange l i m hi hm).Perm l :=
  List.set_set_perm hi hm

theorem getElem_exchange (hi : i < l.length) (hm : m < l.length) {j : ℕ} (hj : j < l.length)
    (hj' : j < (exchange l i m hi hm).length) :
    (exchange l i m hi hm)[j] = if j = m then l[i] else if j = i then l[m] else l[j] := by
  simp only [exchange, List.getElem_set]
  split_ifs <;> first | rfl | omega

/-- Place `m` holds a least element among those at `i` and behind it, up to place `n`. -/
structure IsMinFrom (key : α → β) (l : List α) (i n m : ℕ) : Prop where
  le : i ≤ m
  lt : m < l.length
  min : ∀ j (hj : j < l.length), i ≤ j → j < n → key l[m] ≤ key l[j]

theorem IsMinFrom.refl (hi : i < l.length) : IsMinFrom key l i (i + 1) i where
  le := le_rfl
  lt := hi
  min j hj hij hji := by
    obtain rfl : i = j := by omega
    exact le_rfl

/-- The search looks at one more place. -/
theorem IsMinFrom.next {n : ℕ} (h : IsMinFrom key l i n m) (hm : m < l.length)
    (hn : n < l.length) (hin : i ≤ n) :
    IsMinFrom key l i (n + 1) (if key l[n] < key l[m] then n else m) := by
  split_ifs with hlt
  · refine ⟨hin, hn, fun j hj hij hjn => ?_⟩
    rcases Nat.lt_succ_iff_lt_or_eq.mp hjn with hj' | rfl
    · exact hlt.le.trans (h.min j hj hij hj')
    · exact le_rfl
  · refine ⟨h.le, h.lt, fun j hj hij hjn => ?_⟩
    rcases Nat.lt_succ_iff_lt_or_eq.mp hjn with hj' | rfl
    · exact h.min j hj hij hj'
    · exact not_lt.mp hlt

/-- The first `n` elements are in order and no later element is less than any of them. -/
def SortedUpTo (key : α → β) (l : List α) (n : ℕ) : Prop :=
  ∀ a b (ha : a < l.length) (hb : b < l.length), a < b → a < n → key l[a] ≤ key l[b]

theorem sortedUpTo_zero : SortedUpTo key l 0 := fun _ _ _ _ _ h => absurd h (Nat.not_lt_zero _)

/-- A round makes the sorted part one longer. -/
theorem SortedUpTo.round (h : SortedUpTo key l i) (hi : i < l.length)
    (hm : IsMinFrom key l i l.length m) : SortedUpTo key (exchange l i m hi hm.lt) (i + 1) := by
  intro a b ha hb hab hai
  have hal : a < l.length := by simpa using ha
  have hbl : b < l.length := by simpa using hb
  have him := hm.le
  have hml := hm.lt
  rw [getElem_exchange hi hml hal, getElem_exchange hi hml hbl]
  rcases Nat.lt_succ_iff_lt_or_eq.mp hai with hlt | rfl
  · -- `a` lies in the part that was sorted before, which the round leaves alone
    rw [if_neg (by omega), if_neg (by omega)]
    split_ifs
    · exact h a i hal hi hlt hlt
    · exact h a m hal hml (by omega) hlt
    · exact h a b hal hbl hab hlt
  · -- place `i` has received the least of the elements that were left
    have hleast : (if a = m then l[a] else if a = a then l[m] else l[a]) = l[m] := by
      by_cases ham : a = m
      · subst ham
        simp
      · simp [ham]
    rw [hleast, if_neg (show ¬ b = a by omega)]
    split_ifs with hbm
    · exact hm.min a hi le_rfl hi
    · exact hm.min b hbl hab.le hbl

/-- When all rounds are done, the list is sorted. -/
theorem SortedUpTo.pairwise (h : SortedUpTo key l l.length) :
    l.Pairwise fun x y => key x ≤ key y :=
  List.pairwise_iff_getElem.mpr fun a b ha hb hab => h a b ha hb hab ha

end MemEC.Lib
