import Mathlib.Data.List.Basic
import Mathlib.Tactic

/-!
# Loops that may stop

A loop over `0 .. n - 1` that may stop with an error runs to its end when
every pass keeps an invariant, and then the invariant holds at the end.
-/

namespace MemEC.Lib

variable {ε α : Type}

/-- Two steps, the first of which succeeds. -/
theorem except_ok_bind {β : Type} (a : α) (f : α → Except ε β) : (Except.ok a >>= f) = f a := rfl

theorem foldlM_append {f : α → ℕ → Except ε α} (l l' : List ℕ) (s : α) :
    (l ++ l').foldlM f s = l.foldlM f s >>= l'.foldlM f := by
  induction l generalizing s with
  | nil => rfl
  | cons i l ih =>
    simp only [List.cons_append, List.foldlM_cons]
    cases f s i with
    | error e => rfl
    | ok s' => exact ih s'

/-- The invariant `P i` holds before pass `i`. -/
theorem foldlM_range {f : α → ℕ → Except ε α} {P : ℕ → α → Prop} {n : ℕ} {s : α} (h0 : P 0 s)
    (hstep : ∀ i < n, ∀ s, P i s → ∃ s', f s i = .ok s' ∧ P (i + 1) s') :
    ∃ s', (List.range n).foldlM f s = .ok s' ∧ P n s' := by
  induction n with
  | zero => exact ⟨s, rfl, h0⟩
  | succ n ih =>
    obtain ⟨s', hs', hP⟩ := ih fun i hi => hstep i (Nat.lt_succ_of_lt hi)
    obtain ⟨s'', hs'', hP'⟩ := hstep n n.lt_succ_self s' hP
    refine ⟨s'', ?_, hP'⟩
    rw [List.range_succ, foldlM_append, hs', except_ok_bind, List.foldlM_cons, hs'']
    rfl

/-- What every pass that goes through keeps holds where the loop ends. -/
theorem foldlM_option_range {f : α → ℕ → Option α} {P : ℕ → α → Prop} {n : ℕ} {s t : α}
    (h0 : P 0 s) (hstep : ∀ i < n, ∀ s s', P i s → f s i = some s' → P (i + 1) s')
    (h : (List.range n).foldlM f s = some t) : P n t := by
  induction n generalizing t with
  | zero =>
    cases h
    exact h0
  | succ n ih =>
    rw [List.range_succ, List.foldlM_append, Option.bind_eq_bind, Option.bind_eq_some_iff] at h
    obtain ⟨s', hs', ht⟩ := h
    have hlast : f s' n = some t := by simpa using ht
    exact hstep n n.lt_succ_self s' t (ih (fun i hi => hstep i (Nat.lt_succ_of_lt hi)) hs') hlast

/-- What every pass that goes through keeps holds where a loop ends that went through. -/
theorem foldlM_range_of_ok {f : α → ℕ → Except ε α} {P : ℕ → α → Prop} {n : ℕ} {s t : α}
    (h0 : P 0 s) (hstep : ∀ i < n, ∀ s s', P i s → f s i = .ok s' → P (i + 1) s')
    (h : (List.range n).foldlM f s = .ok t) : P n t := by
  induction n generalizing t with
  | zero =>
    cases h
    exact h0
  | succ n ih =>
    rw [List.range_succ, foldlM_append] at h
    cases hs' : (List.range n).foldlM f s with
    | error e =>
      rw [hs'] at h
      cases h
    | ok s' =>
      rw [hs', except_ok_bind] at h
      have hlast : f s' n = .ok t := by simpa using h
      exact hstep n n.lt_succ_self s' t (ih (fun i hi => hstep i (Nat.lt_succ_of_lt hi)) hs') hlast

/-- A loop that went through met the guard of every pass, when a pass whose guard fails stops it. -/
theorem foldlM_range_guard {f : α → ℕ → Except ε α} {P : ℕ → α → Prop} {G : ℕ → Prop} {n : ℕ}
    {s t : α} (h0 : P 0 s) (hpass : ∀ i < n, ∀ s, P i s → G i → ∃ s', f s i = .ok s' ∧ P (i + 1) s')
    (hstop : ∀ i < n, ∀ s, P i s → ¬G i → ∃ e, f s i = .error e)
    (h : (List.range n).foldlM f s = .ok t) : (∀ i < n, G i) ∧ P n t := by
  refine foldlM_range_of_ok (P := fun n t => (∀ i < n, G i) ∧ P n t)
    ⟨fun i hi => absurd hi (Nat.not_lt_zero i), h0⟩ ?_ h
  rintro i hi s s' ⟨hguard, hP⟩ hok
  by_cases hG : G i
  · obtain ⟨s'', hs'', hP'⟩ := hpass i hi s hP hG
    cases hs''.symm.trans hok
    refine ⟨fun j hj => ?_, hP'⟩
    rcases Nat.lt_succ_iff_lt_or_eq.mp hj with hlt | rfl
    · exact hguard j hlt
    · exact hG
  · obtain ⟨e, he⟩ := hstop i hi s hP hG
    cases he.symm.trans hok

/-- A loop whose passes search with some fuel goes through when each search has enough. -/
theorem foldlM_fuel_range {f : ℕ → α → ℕ → Option α} {P : ℕ → α → Prop} {n : ℕ} {s : α}
    (h0 : P 0 s) (hstep : ∀ i < n, ∀ s, P i s →
      ∃ enough s', (∀ fuel ≥ enough, f fuel s i = some s') ∧ P (i + 1) s') :
    ∃ enough t, (∀ fuel ≥ enough, (List.range n).foldlM (f fuel) s = some t) ∧ P n t := by
  induction n with
  | zero => exact ⟨0, s, fun _ _ => rfl, h0⟩
  | succ n ih =>
    obtain ⟨before, s', hs', hP⟩ := ih fun i hi => hstep i (Nat.lt_succ_of_lt hi)
    obtain ⟨enough, t, ht, hP'⟩ := hstep n n.lt_succ_self s' hP
    refine ⟨max before enough, t, ?_, hP'⟩
    intro fuel hfuel
    rw [List.range_succ, List.foldlM_append, hs' fuel (le_of_max_le_left hfuel)]
    simp [ht fuel (le_of_max_le_right hfuel)]

/-- A loop whose passes change nothing. -/
theorem foldlM_range_same {f : α → ℕ → Except ε α} {n : ℕ} {s : α}
    (h : ∀ i < n, f s i = .ok s) : (List.range n).foldlM f s = .ok s := by
  have hstep : ∀ i < n, ∀ s', s' = s → ∃ s'', f s' i = .ok s'' ∧ s'' = s := by
    rintro i hi s' rfl
    exact ⟨s', h i hi, rfl⟩
  obtain ⟨s', hs', rfl⟩ := foldlM_range (P := fun _ s' => s' = s) rfl hstep
  exact hs'

/-- A search that does not stop with an error. -/
theorem allM_ok {β : Type} {f : β → Except ε Bool} {g : β → Bool} {l : List β}
    (h : ∀ b ∈ l, f b = .ok (g b)) : l.allM f = .ok (l.all g) := by
  induction l with
  | nil => rfl
  | cons b l ih =>
    rw [List.allM, h b (.head l), except_ok_bind, List.all_cons]
    cases hb : g b with
    | true => exact ih fun b' hb' => h b' (.tail b hb')
    | false => rfl

end MemEC.Lib
