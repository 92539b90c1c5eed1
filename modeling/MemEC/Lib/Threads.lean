import Mathlib.Algebra.BigOperators.Group.Finset.Piecewise
import Mathlib.Tactic

/-!
# Threads

The states of threads are a function from the threads. A step of one thread changes
a sum over all of them by what it changes for this one. A log has the entries of all
threads in one order; each thread has its own entries in it.
-/

namespace MemEC.Lib

/-! ## Sums -/

section Sums

variable {ι σ : Type} [DecidableEq ι] [Fintype ι]

theorem sum_update_add (weight : σ → ℕ) (f : ι → σ) (i : ι) (v : σ) :
    ∑ j, weight (Function.update f i v j) + weight (f i) = ∑ j, weight (f j) + weight v := by
  have hweight : (fun j => weight (Function.update f i v j)) =
      Function.update (fun j => weight (f j)) i (weight v) := by
    funext j
    exact Function.apply_update (fun _ => weight) f i v j
  have hsplit := Finset.add_sum_erase Finset.univ (fun j => weight (f j)) (Finset.mem_univ i)
  rw [hweight, Finset.sum_update_of_mem (Finset.mem_univ i), Finset.sdiff_singleton_eq_erase,
    ← hsplit]
  omega

omit [DecidableEq ι] in
theorem weight_le_sum (weight : σ → ℕ) (f : ι → σ) (i : ι) : weight (f i) ≤ ∑ j, weight (f j) :=
  Finset.single_le_sum (f := fun j => weight (f j)) (fun _ _ => Nat.zero_le _) (Finset.mem_univ i)

end Sums

/-! ## Logs -/

section Logs

variable {ι α β : Type} [DecidableEq ι]

/-- The entries of one thread. -/
def entriesOf (t : ι) (log : List (ι × α)) : List α := (log.filter fun e => e.1 = t).map Prod.snd

@[simp] theorem entriesOf_nil (t : ι) : entriesOf t ([] : List (ι × α)) = [] := rfl

theorem entriesOf_cons_self (t : ι) (a : α) (log : List (ι × α)) :
    entriesOf t ((t, a) :: log) = a :: entriesOf t log := by
  simp [entriesOf]

theorem entriesOf_cons_of_ne {t u : ι} (h : u ≠ t) (a : α) (log : List (ι × α)) :
    entriesOf t ((u, a) :: log) = entriesOf t log := by
  simp [entriesOf, h]

theorem entriesOf_append (t : ι) (l l' : List (ι × α)) :
    entriesOf t (l ++ l') = entriesOf t l ++ entriesOf t l' := by
  simp [entriesOf]

theorem mem_entriesOf {log : List (ι × α)} {e : ι × α} : e ∈ log → e.2 ∈ entriesOf e.1 log :=
  fun h => List.mem_map_of_mem (List.mem_filter.mpr ⟨h, by simp⟩)

theorem entriesOf_perm {l l' : List (ι × α)} (h : l.Perm l') (t : ι) :
    (entriesOf t l).Perm (entriesOf t l') := (h.filter _).map _

/-- When the entries of every thread are images under `f`, so is the log, of one that has these
preimages for every thread. -/
theorem exists_log_of_map (f : α → β) {log : List (ι × β)} {l : ι → List α}
    (h : ∀ t, entriesOf t log = (l t).map f) :
    ∃ log' : List (ι × α), log = log'.map (Prod.map id f) ∧ ∀ t, entriesOf t log' = l t := by
  induction log generalizing l with
  | nil => exact ⟨[], rfl, fun t => (List.map_eq_nil_iff.mp (h t).symm).symm⟩
  | cons e log ih =>
    obtain ⟨t, b⟩ := e
    have ht := h t
    rw [entriesOf_cons_self] at ht
    obtain ⟨a, rest, hl, rfl, hrest⟩ := List.map_eq_cons_iff.mp ht.symm
    have hlog : ∀ u, entriesOf u log = (Function.update l t rest u).map f := by
      intro u
      by_cases hu : u = t
      · subst hu
        rw [Function.update_self, hrest]
      · rw [Function.update_of_ne hu, ← h u, entriesOf_cons_of_ne (Ne.symm hu)]
    obtain ⟨log', rfl, hlog'⟩ := ih hlog
    refine ⟨(t, a) :: log', rfl, fun u => ?_⟩
    by_cases hu : u = t
    · subst hu
      rw [entriesOf_cons_self, hlog', Function.update_self, hl]
    · rw [entriesOf_cons_of_ne (Ne.symm hu), hlog', Function.update_of_ne hu]

end Logs

end MemEC.Lib
