import Mathlib.Data.Finset.Card
import Mathlib.Algebra.BigOperators.Group.List.Basic
import Mathlib.Tactic

/-!
# Tallies

A tally is a set of items that are still to be done, with the number of items
that were put into it. When the set gets empty this number is reported. The
reports add up to the number of distinct items exactly as long as no item is put
in twice and nothing is put in behind a report.
-/

namespace MemEC.Lib

variable {α : Type} [DecidableEq α]

structure Tally (α : Type) where
  total : ℕ
  items : Finset α

namespace Tally

/-- Nothing was put in. -/
def empty : Tally α := ⟨0, ∅⟩

def ofSet (s : Finset α) : Tally α := ⟨s.card, s⟩

def merge (t : Tally α) (s : Finset α) : Tally α := ⟨t.total + s.card, t.items ∪ s⟩

/-- The items of `s` are done. -/
def remove (t : Tally α) (s : Finset α) : Tally α := { t with items := t.items \ s }

/-- Something was put in, and is done. -/
def Reported (t : Tally α) : Prop := 0 < t.total ∧ t.items = ∅

theorem empty_merge (s : Finset α) : (empty : Tally α).merge s = ofSet s := by
  simp [merge, empty, ofSet]

@[simp] theorem merge_empty (t : Tally α) : t.merge ∅ = t := by simp [merge]

@[simp] theorem remove_total (t : Tally α) (s : Finset α) : (t.remove s).total = t.total := rfl

theorem remove_remove (t : Tally α) (s s' : Finset α) :
    (t.remove s).remove s' = t.remove (s ∪ s') := by
  simp [remove, sdiff_sdiff_left]

/-- A tally into which the items `asked` were put, and the sum of its reports. -/
structure Accounts (t : Tally α) (asked : Finset α) (reported : ℕ) : Prop where
  subset : t.items ⊆ asked
  card_le : t.items.card ≤ t.total
  balance : reported + (if t.items = ∅ then 0 else t.total) = asked.card

variable {t : Tally α} {asked s : Finset α} {reported : ℕ}

theorem accounts_empty : Accounts (empty : Tally α) ∅ 0 := ⟨subset_rfl, le_rfl, rfl⟩

namespace Accounts

theorem reported_le (h : Accounts t asked reported) : reported ≤ asked.card := by
  have := h.balance
  omega

/-- Everything is reported when everything is done. -/
theorem reported_eq_iff (h : Accounts t asked reported) :
    reported = asked.card ↔ t.items = ∅ := by
  have hbalance := h.balance
  split_ifs at hbalance with hitems
  · simp [hitems, ← hbalance]
  · have hpos := Finset.card_pos.mpr (Finset.nonempty_of_ne_empty hitems)
    have hle := h.card_le
    constructor
    · intro heq
      omega
    · exact fun heq => absurd heq hitems

theorem merge (h : Accounts t asked reported) (hnew : Disjoint s asked) (ht : ¬ t.Reported) :
    Accounts (t.merge s) (asked ∪ s) reported := by
  have hcard := Finset.card_union_of_disjoint hnew.symm
  constructor
  · exact Finset.union_subset_union h.subset subset_rfl
  · exact (Finset.card_union_le _ _).trans (Nat.add_le_add_right h.card_le _)
  · have hbalance := h.balance
    unfold Tally.merge
    dsimp only
    rw [hcard, ← hbalance]
    by_cases hitems : t.items = ∅
    · have htotal : t.total = 0 := Nat.eq_zero_of_not_pos fun hpos => ht ⟨hpos, hitems⟩
      rw [if_pos hitems, hitems, Finset.empty_union, htotal, Nat.zero_add]
      split_ifs with hs
      · simp [hs]
      · rfl
    · rw [if_neg hitems, if_neg fun hunion => hitems (Finset.union_eq_empty.mp hunion).1, add_assoc]

/-- Some items are done, and the total is reported when they were the last ones. -/
theorem remove {reports : List ℕ} (h : Accounts t asked reports.sum) (hs : s ⊆ t.items)
    (hne : s.Nonempty) :
    Accounts (t.remove s) asked
      (if (t.remove s).items = ∅ then reports ++ [t.total] else reports).sum := by
  have hitems : t.items ≠ ∅ := (hne.mono hs).ne_empty
  have hbalance := h.balance
  rw [if_neg hitems] at hbalance
  constructor
  · exact Finset.sdiff_subset.trans h.subset
  · exact (Finset.card_le_card Finset.sdiff_subset).trans h.card_le
  · split_ifs with hdone
    · rw [List.sum_append, List.sum_singleton]
      exact hbalance
    · exact hbalance

/-- A tally of which everything is reported may be forgotten. -/
theorem forget (h : Accounts t asked reported) (hitems : t.items = ∅) :
    Accounts (empty : Tally α) asked reported := by
  have hbalance := h.balance
  rw [if_pos hitems] at hbalance
  exact ⟨Finset.empty_subset _, le_rfl, hbalance⟩

end Accounts

end Tally

end MemEC.Lib
