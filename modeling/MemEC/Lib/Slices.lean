import Mathlib.Data.List.Range
import Mathlib.Order.Monotone.Basic
import Mathlib.Tactic

/-!
# Slices of a list

A slice is the part of a list between two positions. Consecutive slices make up
one slice, and what is put into a list is put into each of its slices. Pieces of
one size are the slices at the multiples of that size.
-/

namespace MemEC.Lib

variable {α : Type}

/-- The entries of `l` from `a` on, up to `b`. -/
def slice (l : List α) (a b : ℕ) : List α := (l.drop a).take (b - a)

theorem length_slice (l : List α) (a b : ℕ) : (slice l a b).length = min b l.length - a := by
  rw [slice, List.length_take, List.length_drop]
  omega

theorem getElem?_slice (l : List α) (a b j : ℕ) :
    (slice l a b)[j]? = if a + j < b then l[a + j]? else none := by
  rw [slice, List.getElem?_take, List.getElem?_drop]
  by_cases h : a + j < b
  · rw [if_pos h, if_pos (by omega)]
  · rw [if_neg h, if_neg (by omega)]

@[simp] theorem slice_self (l : List α) (a : ℕ) : slice l a a = [] := by simp [slice]

theorem slice_eq_nil {l : List α} {a b : ℕ} (h : b ≤ a) : slice l a b = [] := by
  rw [slice, Nat.sub_eq_zero_of_le h, List.take_zero]

theorem slice_length (l : List α) : slice l 0 l.length = l := by simp [slice]

theorem slice_append (l : List α) {a b c : ℕ} (hab : a ≤ b) (hbc : b ≤ c) :
    slice l a b ++ slice l b c = slice l a c := by
  have hdrop : l.drop b = (l.drop a).drop (b - a) := by
    rw [List.drop_drop, Nat.add_sub_cancel' hab]
  have hlen : c - a = (b - a) + (c - b) := by omega
  rw [slice, slice, slice, hdrop, hlen, List.take_add]

/-- Consecutive slices make up one slice. -/
theorem flatMap_slice {p : ℕ → ℕ} (hp : Monotone p) (l : List α) (i n : ℕ) :
    (List.range' i n).flatMap (fun j => slice l (p j) (p (j + 1))) = slice l (p i) (p (i + n)) := by
  induction n generalizing i with
  | zero => simp
  | succ n ih =>
    rw [List.range'_succ, List.flatMap_cons, ih, slice_append l (hp (Nat.le_succ i))
      (hp (by omega)), Nat.add_assoc, Nat.add_comm 1 n]

theorem slice_range' (o s a b : ℕ) (hb : b ≤ s) :
    slice (List.range' o s) a b = List.range' (o + a) (b - a) := by
  rw [slice, List.drop_range', Nat.mul_one, List.take_range'_of_length_ge (by omega)]

/-- `bs` put into `l` at `off`. What does not fit falls off. -/
def patch (l : List α) (off : ℕ) (bs : List α) : List α :=
  (l.take off ++ bs ++ l.drop (off + bs.length)).take l.length

theorem getElem?_patch (l : List α) (off : ℕ) (bs : List α) (j : ℕ) :
    (patch l off bs)[j]? =
      if off ≤ j ∧ j < off + bs.length ∧ j < l.length then bs[j - off]? else l[j]? := by
  unfold patch
  rw [List.getElem?_take]
  by_cases hl : j < l.length
  · rw [if_pos hl, List.append_assoc, List.getElem?_append, List.length_take]
    by_cases hoff : j < off
    · rw [if_pos (by omega), if_neg (by omega), List.getElem?_take_of_lt hoff]
    · rw [if_neg (by omega), List.getElem?_append, Nat.min_eq_left (by omega)]
      by_cases hbs : j - off < bs.length
      · rw [if_pos hbs, if_pos (by omega)]
      · rw [if_neg hbs, if_neg (by omega), List.getElem?_drop]
        congr 1
        omega
  · rw [if_neg hl, if_neg (by omega), List.getElem?_eq_none (by omega)]

@[simp] theorem length_patch (l : List α) (off : ℕ) (bs : List α) :
    (patch l off bs).length = l.length := by
  simp only [patch, List.length_take, List.length_append, List.length_drop]
  omega

@[simp] theorem patch_nil (l : List α) (off : ℕ) : patch l off [] = l := by
  apply List.ext_getElem?
  intro j
  rw [getElem?_patch, if_neg]
  simp only [List.length_nil]
  omega

/-- A list of the same length replaces everything. -/
theorem patch_eq_of_length_eq {l bs : List α} (h : l.length = bs.length) : patch l 0 bs = bs := by
  unfold patch
  rw [List.take_zero, List.nil_append, Nat.zero_add, ← h, List.drop_length, List.append_nil, h,
    List.take_length]

/-- What is put into a list is put, cut at both ends, into each of its slices. -/
theorem slice_patch (l : List α) {off a b : ℕ} {bs : List α} (hfit : off + bs.length ≤ l.length) :
    slice (patch l off bs) a b =
      patch (slice l a b) (max off a - a)
        (slice bs (max off a - off) (min (off + bs.length) b - off)) := by
  apply List.ext_getElem?
  intro j
  simp only [getElem?_slice, getElem?_patch, length_slice]
  by_cases hj : a + j < b
  · by_cases hin : off ≤ a + j ∧ a + j < off + bs.length
    · have hindex : max off a - off + (j - (max off a - a)) = a + j - off := by omega
      rw [if_pos hj, if_pos (by omega), if_pos (by omega), if_pos (by omega), hindex]
    · rw [if_pos hj, if_neg (by omega), if_neg (by omega), if_pos hj]
  · rw [if_neg hj, if_neg (by omega), if_neg hj]

theorem slice_patch_of_disjoint (l : List α) {off a b : ℕ} {bs : List α}
    (hfit : off + bs.length ≤ l.length) (h : off + bs.length ≤ a ∨ b ≤ off) :
    slice (patch l off bs) a b = slice l a b := by
  rw [slice_patch l hfit, slice_eq_nil (l := bs) (by omega), patch_nil]

/-- A fold that changes one place for each entry of a list without repetitions. -/
theorem foldl_update {ι β : Type} [DecidableEq ι] (f : ι → β → β) {is : List ι} (h : is.Nodup)
    (g : ι → β) (j : ι) :
    is.foldl (fun g i => Function.update g i (f i (g i))) g j =
      if j ∈ is then f j (g j) else g j := by
  induction is generalizing g with
  | nil => rfl
  | cons i is ih =>
    obtain ⟨hi, hnodup⟩ := List.nodup_cons.mp h
    rw [List.foldl_cons, ih hnodup]
    by_cases hji : j = i
    · subst hji
      rw [if_neg hi, Function.update_self, if_pos List.mem_cons_self]
    · simp [hji]

/-! ## Pieces of one size -/

/-- The number of pieces of `s` entries that make up `n` entries, the last one shorter perhaps. -/
def pieces (n s : ℕ) : ℕ := n / s + if n % s = 0 then 0 else 1

theorem lt_pieces_iff {n s i : ℕ} (hs : 0 < s) : i < pieces n s ↔ i * s < n := by
  have hn := Nat.div_add_mod n s
  unfold pieces
  constructor
  · intro h
    split_ifs at h with hmod
    · have hle : (i + 1) * s ≤ n / s * s := Nat.mul_le_mul_right s (by omega)
      rw [Nat.add_mul, Nat.one_mul, Nat.mul_comm (n / s)] at hle
      omega
    · have hle : i * s ≤ n / s * s := Nat.mul_le_mul_right s (by omega)
      rw [Nat.mul_comm (n / s)] at hle
      omega
  · intro h
    have hle : i ≤ n / s := (Nat.le_div_iff_mul_le hs).mpr h.le
    split_ifs with hmod
    · rcases hle.lt_or_eq with hlt | rfl
      · exact hlt
      · rw [Nat.mul_comm] at h
        omega
    · omega

/-- The pieces have no gap and do not overlap. -/
theorem existsUnique_piece {n s p : ℕ} (hs : 0 < s) (hp : p < n) :
    ∃! i, i < pieces n s ∧ i * s ≤ p ∧ p < min (i * s + s) n := by
  refine ⟨p / s, ⟨?_, ?_, ?_⟩, ?_⟩
  · rw [lt_pieces_iff hs]
    exact (Nat.div_mul_le_self p s).trans_lt hp
  · exact Nat.div_mul_le_self p s
  · have hlt := Nat.lt_div_mul_add hs (a := p)
    omega
  · rintro i ⟨-, hle, hlt⟩
    symm
    apply Nat.div_eq_of_lt_le hle
    rw [Nat.add_mul, Nat.one_mul]
    omega

end MemEC.Lib
