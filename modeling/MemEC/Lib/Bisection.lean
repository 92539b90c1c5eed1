import Mathlib.Tactic

/-!
# Bisection

A search in a sorted table halves an interval until two neighbours are left,
with a place below what is searched for at the one end and a place that is not
at the other, unless an end of the interval has never moved.
-/

namespace MemEC.Lib

/-- At most `fuel` halvings of the interval. It is not halved any more when two neighbours are
left. -/
def bisect (below : ℕ → Bool) : ℕ → ℕ → ℕ → ℕ × ℕ
  | 0, start, stop => (start, stop)
  | fuel + 1, start, stop =>
    if start < stop then
      let mid := (start + stop) / 2
      let start' := if below mid then mid else start
      let stop' := if below mid then stop else mid
      if start' + 1 = stop' then (start', stop') else bisect below fuel start' stop'
    else (start, stop)

variable {below : ℕ → Bool}

/-- What is known about the ends of the interval. -/
structure Bisected (below : ℕ → Bool) (start stop : ℕ) (r : ℕ × ℕ) : Prop where
  next : r.1 + 1 = r.2
  le_stop : r.2 ≤ stop
  below_start : r.1 = start ∨ below r.1 = true
  below_stop : r.2 = stop ∨ below r.2 = false

theorem bisected {fuel start stop : ℕ} (hlt : start + 2 ≤ stop) (hfuel : stop ≤ start + fuel) :
    Bisected below start stop (bisect below fuel start stop) := by
  induction fuel generalizing start stop with
  | zero => omega
  | succ fuel ih =>
    have hlow : start < (start + stop) / 2 := by omega
    have hhigh : (start + stop) / 2 < stop := by omega
    unfold bisect
    rw [if_pos (by omega)]
    cases hmid : below ((start + stop) / 2) with
    | true =>
      simp only [hmid, if_true]
      by_cases hnext : (start + stop) / 2 + 1 = stop
      · rw [if_pos hnext]
        exact ⟨hnext, le_rfl, Or.inr hmid, Or.inl rfl⟩
      · rw [if_neg hnext]
        have h : Bisected below ((start + stop) / 2) stop _ := ih (by omega) (by omega)
        refine ⟨h.next, h.le_stop, Or.inr ?_, h.below_stop⟩
        rcases h.below_start with heq | hbelow
        · rw [heq, hmid]
        · exact hbelow
    | false =>
      simp only [hmid, Bool.false_eq_true, if_false]
      by_cases hnext : start + 1 = (start + stop) / 2
      · rw [if_pos hnext]
        exact ⟨hnext, hhigh.le, Or.inl rfl, Or.inr hmid⟩
      · rw [if_neg hnext]
        have h : Bisected below start ((start + stop) / 2) _ := ih (by omega) (by omega)
        refine ⟨h.next, h.le_stop.trans hhigh.le, h.below_start, Or.inr ?_⟩
        rcases h.below_stop with heq | hbelow
        · rw [heq, hmid]
        · exact hbelow

end MemEC.Lib
