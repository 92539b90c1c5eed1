import Mathlib.Data.List.Iterate
import Mathlib.Tactic

/-!
# Cyclic scans

A cursor goes round the positions below `n` and takes the suitable ones until it
has taken enough.
-/

namespace MemEC.Lib

/-- The position after `i`. -/
def cyclicNext (n i : ℕ) : ℕ := if n ≤ i + 1 then 0 else i + 1

section Cyclic

variable {n i : ℕ}

theorem cyclicNext_eq_mod (hi : i < n) : cyclicNext n i = (i + 1) % n := by
  unfold cyclicNext
  split_ifs with h
  · rw [Nat.le_antisymm h hi, Nat.mod_self]
  · rw [Nat.mod_eq_of_lt (Nat.not_le.mp h)]

theorem iterate_cyclicNext (hi : i < n) (j : ℕ) : (cyclicNext n)^[j] i = (i + j) % n := by
  induction j with
  | zero => rw [Function.iterate_zero_apply, Nat.add_zero, Nat.mod_eq_of_lt hi]
  | succ j ih =>
    rw [Function.iterate_succ_apply', ih, cyclicNext_eq_mod (Nat.mod_lt _ (by omega)),
      Nat.mod_add_mod, Nat.add_assoc]

/-- In one round the cursor stands once at every position. -/
theorem iterate_cyclicNext_perm (hi : i < n) :
    (List.iterate (cyclicNext n) i n).Perm (List.range n) := by
  have hnodup : (List.iterate (cyclicNext n) i n).Nodup := by
    refine List.nodup_iff_injective_get.mpr fun a b hab => ?_
    have ha : (a : ℕ) < n := a.isLt.trans_eq (List.length_iterate _ _ _)
    have hb : (b : ℕ) < n := b.isLt.trans_eq (List.length_iterate _ _ _)
    rw [List.get_eq_getElem, List.get_eq_getElem, List.getElem_iterate, List.getElem_iterate,
      iterate_cyclicNext hi, iterate_cyclicNext hi] at hab
    have hmod : (a : ℕ) % n = b % n := Nat.ModEq.add_left_cancel' i hab
    rw [Nat.mod_eq_of_lt ha, Nat.mod_eq_of_lt hb] at hmod
    exact Fin.ext hmod
  refine (List.subperm_of_subset hnodup fun j hj => ?_).perm_of_length_le (by simp)
  obtain ⟨a, -, rfl⟩ := List.mem_iterate.mp hj
  rw [List.mem_range, iterate_cyclicNext hi]
  exact Nat.mod_lt _ (by omega)

end Cyclic

/-- The positions that are taken from `i` on until there are `quota`, and the cursor after it. -/
def scan (p : ℕ → Bool) (next : ℕ → ℕ) : ℕ → ℕ → ℕ → Option (List ℕ × ℕ)
  | 0, _, _ => none
  | _ + 1, 0, i => some ([], i)
  | fuel + 1, quota + 1, i =>
    if p i then (scan p next fuel quota (next i)).map fun r => (i :: r.1, r.2)
    else scan p next fuel (quota + 1) (next i)

section Scan

variable {p : ℕ → Bool} {next : ℕ → ℕ} {fuel quota i len : ℕ}

/-- Where there are enough suitable positions ahead, the first of them are taken. -/
theorem scan_eq (h : quota ≤ ((List.iterate next i len).filter p).length) (hfuel : len < fuel) :
    ∃ j, scan p next fuel quota i =
      some (((List.iterate next i len).filter p).take quota, next^[j] i) := by
  induction fuel generalizing quota i len with
  | zero => exact absurd hfuel (Nat.not_lt_zero _)
  | succ fuel ih =>
    cases quota with
    | zero => exact ⟨0, rfl⟩
    | succ quota =>
      cases len with
      | zero => exact absurd h (Nat.not_succ_le_zero _)
      | succ len =>
        have hlen : len < fuel := Nat.lt_of_succ_lt_succ hfuel
        rw [List.iterate, List.filter_cons] at h ⊢
        rw [scan]
        split_ifs at h ⊢ with hp
        · obtain ⟨j, hj⟩ := ih (Nat.le_of_succ_le_succ h) hlen
          refine ⟨j + 1, ?_⟩
          rw [hj, Option.map_some, List.take_succ_cons, Function.iterate_succ_apply]
        · obtain ⟨j, hj⟩ := ih h hlen
          exact ⟨j + 1, by rw [hj, Function.iterate_succ_apply]⟩

/-- A round is enough if there are enough suitable positions at all. -/
theorem scan_cyclicNext {n : ℕ} (hi : i < n) (h : quota ≤ ((List.range n).filter p).length)
    (hfuel : n < fuel) : ∃ l j, scan p (cyclicNext n) fuel quota i = some (l, j) ∧ l.Nodup ∧
      l.length = quota ∧ (∀ c ∈ l, c < n ∧ p c = true) ∧ j < n := by
  have hperm := (iterate_cyclicNext_perm hi).filter p
  rw [← hperm.length_eq] at h
  obtain ⟨j, hj⟩ := scan_eq h hfuel
  refine ⟨_, _, hj, ?_, List.length_take_of_le h, fun c hc => ?_, ?_⟩
  · exact (List.take_sublist _ _).nodup (hperm.nodup_iff.mpr (List.nodup_range.filter _))
  · have hmem := hperm.mem_iff.mp (List.mem_of_mem_take hc)
    rwa [List.mem_filter, List.mem_range] at hmem
  · rw [iterate_cyclicNext hi]
    exact Nat.mod_lt _ (by omega)

end Scan

end MemEC.Lib
