import MemEC.Lib.CyclicScan

/-!
# Rings

An array that is used as a ring has a place where the next value is read and one
where the next value is written. The values between the two are those that the
ring holds, in the order in which they were written.
-/

namespace MemEC.Lib

variable {α : Type} {n read write : ℕ} {slots : ℕ → α} {x : α} {xs : List α}

theorem cyclicNext_lt (hn : 0 < n) (i : ℕ) : cyclicNext n i < n := by
  unfold cyclicNext
  split_ifs <;> omega

/-- The values from `read` up to `write` in a ring of `n` slots. -/
structure RingHolds (n : ℕ) (slots : ℕ → α) (read write : ℕ) (xs : List α) : Prop where
  length_le : xs.length ≤ n
  read_lt : 0 < n → read < n
  write_eq : write = (cyclicNext n)^[xs.length] read
  values : xs = (List.iterate (cyclicNext n) read xs.length).map slots

/-- Nothing has been written yet. -/
theorem ringHolds_nil (n : ℕ) (slots : ℕ → α) : RingHolds n slots 0 0 [] :=
  ⟨Nat.zero_le n, fun hn => hn, rfl, rfl⟩

/-- All slots are full. -/
theorem ringHolds_range (n : ℕ) (slots : ℕ → α) :
    RingHolds n slots 0 0 ((List.range n).map slots) := by
  have hlength : ((List.range n).map slots).length = n := by simp
  refine ⟨hlength.le, fun hn => hn, ?_, ?_⟩
  · rw [hlength]
    rcases Nat.eq_zero_or_pos n with rfl | hn
    · rfl
    · rw [iterate_cyclicNext hn, Nat.zero_add, Nat.mod_self]
  · rw [hlength]
    refine congrArg (List.map slots) (List.ext_getElem (by simp) fun j h₁ h₂ => ?_)
    have hj : j < n := by simpa using h₁
    rw [List.getElem_range, List.getElem_iterate, iterate_cyclicNext (by omega), Nat.zero_add,
      Nat.mod_eq_of_lt hj]

namespace RingHolds

/-- The first value is read. -/
theorem pop (h : RingHolds n slots read write (x :: xs)) :
    slots read = x ∧ RingHolds n slots (cyclicNext n read) write xs := by
  have hvalues := h.values
  rw [List.length_cons, List.iterate, List.map_cons, List.cons.injEq] at hvalues
  have hlength := h.length_le
  rw [List.length_cons] at hlength
  refine ⟨hvalues.1.symm, by omega, fun hn => cyclicNext_lt hn read, ?_, hvalues.2⟩
  rw [h.write_eq, List.length_cons, Function.iterate_succ_apply]

/-- The slot behind the last value is none of those that are in use. -/
theorem write_notMem (h : RingHolds n slots read write xs) (hroom : xs.length < n) :
    write ∉ List.iterate (cyclicNext n) read xs.length := by
  intro hmem
  have hread := h.read_lt (by omega)
  obtain ⟨j, hj, heq⟩ := List.mem_iterate.mp hmem
  rw [h.write_eq, iterate_cyclicNext hread, iterate_cyclicNext hread] at heq
  have hmod : xs.length % n = j % n := Nat.ModEq.add_left_cancel' read heq
  rw [Nat.mod_eq_of_lt hroom, Nat.mod_eq_of_lt (by omega)] at hmod
  omega

/-- A value is written behind the others. -/
theorem push (h : RingHolds n slots read write xs) (hroom : xs.length < n) (x : α) :
    RingHolds n (Function.update slots write x) read (cyclicNext n write) (xs ++ [x]) := by
  have hlength : (xs ++ [x]).length = xs.length + 1 := by simp
  have hkept : (List.iterate (cyclicNext n) read xs.length).map (Function.update slots write x) =
      xs := by
    refine (List.map_congr_left fun i hi => ?_).trans h.values.symm
    apply Function.update_of_ne
    rintro rfl
    exact h.write_notMem hroom hi
  refine ⟨by omega, h.read_lt, ?_, ?_⟩
  · rw [hlength, Function.iterate_succ_apply', ← h.write_eq]
  · rw [hlength, List.iterate_add, List.map_append, hkept, ← h.write_eq]
    simp [List.iterate]

end RingHolds

end MemEC.Lib
