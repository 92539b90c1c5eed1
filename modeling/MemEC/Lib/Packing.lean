import Mathlib.Tactic

/-!
# Greedy packing

Items are put into a buffer one after the other, up to the first one that does
not fit.
-/

namespace MemEC.Lib

variable {α : Type} (capacity : ℕ) (size : α → ℕ)

/-- The number of items that fit behind the first `bytes` bytes. -/
def fit : ℕ → List α → ℕ
  | _, [] => 0
  | bytes, a :: l => if bytes + size a ≤ capacity then fit (bytes + size a) l + 1 else 0

variable {capacity size} {bytes : ℕ} {a : α} {l : List α}

@[simp] theorem fit_nil : fit capacity size bytes [] = 0 := rfl

theorem fit_cons_of_le (h : bytes + size a ≤ capacity) :
    fit capacity size bytes (a :: l) = fit capacity size (bytes + size a) l + 1 := if_pos h

theorem fit_cons_of_lt (h : capacity < bytes + size a) : fit capacity size bytes (a :: l) = 0 :=
  if_neg (Nat.not_le.mpr h)

theorem fit_le_length : fit capacity size bytes l ≤ l.length := by
  induction l generalizing bytes with
  | nil => exact le_rfl
  | cons a l ih =>
    rw [fit]
    split
    · exact Nat.succ_le_succ ih
    · exact Nat.zero_le _

/-- When there is room for all items, all of them fit. -/
theorem fit_eq_length (h : bytes + (l.map size).sum ≤ capacity) :
    fit capacity size bytes l = l.length := by
  induction l generalizing bytes with
  | nil => rfl
  | cons a l ih =>
    rw [List.map_cons, List.sum_cons] at h
    rw [fit_cons_of_le (by omega), ih (by omega), List.length_cons]

variable (size bytes l) in
/-- What is put into the buffer stays within it. -/
theorem sum_take_fit_le (capacity : ℕ) :
    bytes + ((l.take (fit capacity size bytes l)).map size).sum ≤ max bytes capacity := by
  induction l generalizing bytes with
  | nil => simp
  | cons a l ih =>
    by_cases hfit : bytes + size a ≤ capacity
    · rw [fit_cons_of_le hfit, List.take_succ_cons, List.map_cons, List.sum_cons, ← Nat.add_assoc]
      have := ih (bytes + size a)
      omega
    · rw [fit_cons_of_lt (Nat.not_le.mp hfit)]
      simp

theorem fit_map {β : Type} (f : β → α) (l : List β) :
    fit capacity size bytes (l.map f) = fit capacity (fun b => size (f b)) bytes l := by
  induction l generalizing bytes with
  | nil => rfl
  | cons b l ih => rw [List.map_cons, fit, fit, ih]

/-- The next item would not have fitted. -/
theorem lt_sum_of_fit_lt (h : fit capacity size bytes l < l.length) :
    capacity < bytes + ((l.take (fit capacity size bytes l + 1)).map size).sum := by
  induction l generalizing bytes with
  | nil => exact absurd h (lt_irrefl 0)
  | cons a l ih =>
    by_cases hfit : bytes + size a ≤ capacity
    · rw [fit_cons_of_le hfit] at h ⊢
      have hrest := ih (Nat.lt_of_succ_lt_succ h)
      rwa [List.take_succ_cons, List.map_cons, List.sum_cons, ← Nat.add_assoc]
    · rw [fit_cons_of_lt (Nat.not_le.mp hfit)]
      simpa using Nat.not_le.mp hfit

/-- Two lists, the second of which is begun when the first one is in the buffer. -/
theorem fit_append (l' : List α) : fit capacity size bytes (l ++ l') =
    if fit capacity size bytes l = l.length then
      l.length + fit capacity size (bytes + (l.map size).sum) l'
    else fit capacity size bytes l := by
  induction l generalizing bytes with
  | nil => simp
  | cons a l ih =>
    by_cases hfit : bytes + size a ≤ capacity
    · rw [List.cons_append, fit_cons_of_le hfit, fit_cons_of_le hfit, ih, List.length_cons,
        List.map_cons, List.sum_cons, ← Nat.add_assoc]
      split_ifs <;> omega
    · rw [List.cons_append, fit_cons_of_lt (Nat.not_le.mp hfit),
        fit_cons_of_lt (Nat.not_le.mp hfit), List.length_cons, if_neg (Nat.succ_ne_zero _).symm]

/-- Something is put into a buffer with room for the first item. -/
theorem fit_pos (hne : l ≠ []) (h : ∀ a ∈ l, bytes + size a ≤ capacity) :
    0 < fit capacity size bytes l := by
  cases l with
  | nil => exact absurd rfl hne
  | cons a l =>
    rw [fit_cons_of_le (h a List.mem_cons_self)]
    exact Nat.succ_pos _

/-! ## Buffer after buffer -/

theorem le_capacity_of_fit_pos (h : 0 < fit capacity size bytes l) : bytes ≤ capacity := by
  cases l with
  | nil => exact absurd h (lt_irrefl 0)
  | cons a l =>
    by_contra hlt
    rw [fit_cons_of_lt (by omega)] at h
    exact lt_irrefl 0 h

variable (capacity size) in
/-- The items are put into buffers that have `start` bytes in front, one buffer after the other,
until none is left. -/
def batches (start : ℕ) : ℕ → List α → Option (List (List α))
  | 0, _ => none
  | fuel + 1, l =>
    let n := fit capacity size start l
    if (l.drop n).isEmpty then some [l.take n]
    else (batches start fuel (l.drop n)).map (l.take n :: ·)

section Batches

variable {start fuel : ℕ} {bs : List (List α)}

/-- Every item is in one of the buffers, in its order. -/
theorem batches_flatten (h : batches capacity size start fuel l = some bs) : bs.flatten = l := by
  induction fuel generalizing l bs with
  | zero => exact absurd h (by simp [batches])
  | succ fuel ih =>
    have hl := List.take_append_drop (fit capacity size start l) l
    unfold batches at h
    dsimp only at h
    split at h
    next hnil =>
      obtain rfl := Option.some.inj h
      rw [List.isEmpty_iff.mp hnil, List.append_nil] at hl
      rw [List.flatten_singleton, hl]
    next =>
      obtain ⟨bs', hbs, rfl⟩ := Option.map_eq_some_iff.mp h
      rw [List.flatten_cons, ih hbs, hl]

/-- What is in a buffer stays within it. -/
theorem sum_le_of_mem_batches (h : batches capacity size start fuel l = some bs) {c : List α}
    (hc : c ∈ bs) (hne : c ≠ []) : start + (c.map size).sum ≤ capacity := by
  have htake : ∀ l : List α, l.take (fit capacity size start l) ≠ [] →
      start + ((l.take (fit capacity size start l)).map size).sum ≤ capacity := by
    intro l hne
    have hpos : 0 < fit capacity size start l := by
      rcases Nat.eq_zero_or_pos (fit capacity size start l) with h0 | h0
      · rw [h0, List.take_zero] at hne
        exact absurd rfl hne
      · exact h0
    have hle := sum_take_fit_le size start l capacity
    rwa [max_eq_right (le_capacity_of_fit_pos hpos)] at hle
  induction fuel generalizing l bs with
  | zero => exact absurd h (by simp [batches])
  | succ fuel ih =>
    unfold batches at h
    dsimp only at h
    split at h
    next =>
      obtain rfl := Option.some.inj h
      obtain rfl := List.mem_singleton.mp hc
      exact htake l hne
    next =>
      obtain ⟨bs', hbs, rfl⟩ := Option.map_eq_some_iff.mp h
      rcases List.mem_cons.mp hc with rfl | hc
      · exact htake l hne
      · exact ih hbs hc

/-- The packing ends only if each item has room in a buffer of its own. -/
theorem le_of_batches (h : batches capacity size start fuel l = some bs) (ha : a ∈ l) :
    start + size a ≤ capacity := by
  rw [← batches_flatten h] at ha
  obtain ⟨c, hc, hac⟩ := List.mem_flatten.mp ha
  have hsum := sum_le_of_mem_batches h hc (List.ne_nil_of_mem hac)
  have hle : size a ≤ (c.map size).sum := List.le_sum_of_mem (List.mem_map_of_mem hac)
  omega

/-- If each item has, the packing ends. -/
theorem exists_batches (h : ∀ a ∈ l, start + size a ≤ capacity) (hfuel : l.length < fuel) :
    ∃ bs, batches capacity size start fuel l = some bs := by
  induction fuel generalizing l with
  | zero => exact absurd hfuel (Nat.not_lt_zero _)
  | succ fuel ih =>
    unfold batches
    dsimp only
    split
    next => exact ⟨_, rfl⟩
    next hne =>
      have hl : l ≠ [] := by
        rintro rfl
        exact hne rfl
      have hpos := fit_pos hl h
      have hlen := List.length_pos_iff.mpr hl
      have hlt : (l.drop (fit capacity size start l)).length < fuel := by
        rw [List.length_drop]
        omega
      obtain ⟨bs, hbs⟩ := ih (fun a ha => h a (List.mem_of_mem_drop ha)) hlt
      exact ⟨_, Option.map_eq_some_iff.mpr ⟨bs, hbs, rfl⟩⟩

end Batches

end MemEC.Lib
