import MemEC.Lib.Lists
import Mathlib.Data.List.TakeWhile
import Mathlib.Tactic

/-!
# Multimaps as sorted lists

A multimap keeps its entries in the order of their keys, entries with the same
key in the order in which they were inserted. A sweep goes over the entries
between two bounds and takes some of them out; as the entries are sorted, it is
a filter of the whole list. A map is a multimap whose insertion leaves the entry
alone that already has the key.
-/

namespace MemEC.Lib

variable {α κ : Type} [LinearOrder κ] {key : α → κ}

/-- The entries behind the first ones with a property that goes down along the list. -/
theorem eq_false_of_mem_dropWhile {p : α → Bool} {l : List α}
    (h : l.Pairwise fun a b => p b = true → p a = true) {a : α} (ha : a ∈ l.dropWhile p) :
    p a = false := by
  induction l with
  | nil => cases ha
  | cons b l ih =>
    obtain ⟨hb, hl⟩ := List.pairwise_cons.mp h
    cases hp : p b with
    | true =>
      rw [List.dropWhile_cons_of_pos hp] at ha
      exact ih hl ha
    | false =>
      rw [List.dropWhile_cons_of_neg (by rw [hp]; exact Bool.false_ne_true)] at ha
      rcases List.mem_cons.mp ha with rfl | ha
      · exact hp
      · by_contra hpa
        rw [hb a ha (Bool.eq_true_of_not_eq_false hpa)] at hp
        cases hp

/-- The first entries with such a property are all that have it. -/
theorem while_eq_filter {p : α → Bool} {l : List α}
    (h : l.Pairwise fun a b => p b = true → p a = true) :
    l.takeWhile p = l.filter p ∧ l.dropWhile p = l.filter fun a => !p a := by
  have htaken : ∀ a ∈ l.takeWhile p, p a = true := fun a ha => List.mem_takeWhile_imp ha
  have hleft : ∀ a ∈ l.dropWhile p, p a = false := fun a ha => eq_false_of_mem_dropWhile h ha
  have hsplit : l.takeWhile p ++ l.dropWhile p = l := List.takeWhile_append_dropWhile
  constructor
  · conv_rhs => rw [← hsplit, List.filter_append]
    rw [List.filter_eq_self.mpr htaken, List.filter_eq_nil_iff.mpr, List.append_nil]
    exact fun a ha => by simp [hleft a ha]
  · conv_rhs => rw [← hsplit, List.filter_append]
    rw [List.filter_eq_nil_iff.mpr, List.filter_eq_self.mpr, List.nil_append]
    · exact fun a ha => by simp [hleft a ha]
    · exact fun a ha => by simp [htaken a ha]

structure Multimap (key : α → κ) where
  entries : List α
  sorted : entries.Pairwise fun a b => key a ≤ key b

/-- The entries that a sweep leaves, and those that it takes out: it starts behind the entries
`before` and goes on up to the last entry in `upTo`. -/
def sweep (before upTo p : α → Bool) (l : List α) : List α × List α :=
  let rest := l.dropWhile before
  let range := rest.takeWhile upTo
  (l.takeWhile before ++ (range.filter fun a => !p a) ++ rest.dropWhile upTo, range.filter p)

theorem sweep_eq_filter {before upTo : α → Bool} {l : List α}
    (hbefore : l.Pairwise fun a b => before b = true → before a = true)
    (hupTo : l.Pairwise fun a b => upTo b = true → upTo a = true) (p : α → Bool) :
    sweep before upTo p l = (l.filter fun a => !(!before a && upTo a && p a),
      l.filter fun a => !before a && upTo a && p a) := by
  have hrest : ∀ a ∈ l.dropWhile before, before a = false := fun a ha =>
    eq_false_of_mem_dropWhile hbefore ha
  have hbeyond : ∀ a ∈ (l.dropWhile before).dropWhile upTo, before a = false ∧ upTo a = false := by
    intro a ha
    constructor
    · exact hrest a ((List.dropWhile_sublist _).subset ha)
    · exact eq_false_of_mem_dropWhile (hupTo.sublist (List.dropWhile_sublist _)) ha
  have hrange : ∀ a ∈ (l.dropWhile before).takeWhile upTo, before a = false ∧ upTo a = true := by
    intro a ha
    constructor
    · exact hrest a ((List.takeWhile_sublist _).subset ha)
    · exact List.mem_takeWhile_imp ha
  have hfirst : ∀ a ∈ l.takeWhile before, before a = true := fun a ha => List.mem_takeWhile_imp ha
  have hsplit : l = l.takeWhile before ++
      ((l.dropWhile before).takeWhile upTo ++ (l.dropWhile before).dropWhile upTo) := by
    rw [List.takeWhile_append_dropWhile, List.takeWhile_append_dropWhile]
  have hkept : (l.filter fun a => !(!before a && upTo a && p a)) = l.takeWhile before ++
      ((((l.dropWhile before).takeWhile upTo).filter fun a => !p a) ++
        (l.dropWhile before).dropWhile upTo) := by
    conv_lhs => rw [hsplit]
    rw [List.filter_append, List.filter_append]
    congr 1
    · apply List.filter_eq_self.mpr
      intro a ha
      simp [hfirst a ha]
    · congr 1
      · apply List.filter_congr
        intro a ha
        simp [hrange a ha]
      · apply List.filter_eq_self.mpr
        intro a ha
        simp [hbeyond a ha]
  have htaken : (l.filter fun a => !before a && upTo a && p a) =
      ((l.dropWhile before).takeWhile upTo).filter p := by
    conv_lhs => rw [hsplit]
    rw [List.filter_append, List.filter_append]
    have hnone₁ : ((l.takeWhile before).filter fun a => !before a && upTo a && p a) = [] := by
      apply List.filter_eq_nil_iff.mpr
      intro a ha
      simp [hfirst a ha]
    have hnone₂ : (((l.dropWhile before).dropWhile upTo).filter
        fun a => !before a && upTo a && p a) = [] := by
      apply List.filter_eq_nil_iff.mpr
      intro a ha
      simp [hbeyond a ha]
    rw [hnone₁, hnone₂, List.nil_append, List.append_nil]
    apply List.filter_congr
    intro a ha
    simp [hrange a ha]
  rw [hkept, htaken, sweep, List.append_assoc]

/-- A sweep that is not over sorted entries takes entries out as well. -/
theorem sweep_sublist (before upTo p : α → Bool) (l : List α) :
    (sweep before upTo p l).1.Sublist l := by
  have hrange : ((((l.dropWhile before).takeWhile upTo).filter fun a => !p a) ++
      (l.dropWhile before).dropWhile upTo).Sublist (l.dropWhile before) := by
    conv_rhs => rw [← List.takeWhile_append_dropWhile (p := upTo) (l := l.dropWhile before)]
    exact List.filter_sublist.append_right _
  rw [sweep, List.append_assoc]
  conv_rhs => rw [← List.takeWhile_append_dropWhile (p := before) (l := l)]
  exact hrange.append_left _

namespace Multimap

def empty : Multimap key := ⟨[], List.Pairwise.nil⟩

/-- Where `insert` puts a new entry. -/
def insertEntry (key : α → κ) (a : α) (l : List α) : List α :=
  (l.takeWhile fun b => key b ≤ key a) ++ a :: l.dropWhile fun b => key b ≤ key a

theorem insertEntry_perm (a : α) (l : List α) : (insertEntry key a l).Perm (a :: l) := by
  apply List.perm_middle.trans
  rw [List.takeWhile_append_dropWhile]

theorem pairwise_insertEntry (a : α) {l : List α} (h : l.Pairwise fun a b => key a ≤ key b) :
    (insertEntry key a l).Pairwise fun a b => key a ≤ key b := by
  have hdown : l.Pairwise fun b c => decide (key c ≤ key a) = true → decide (key b ≤ key a) = true :=
    h.imp fun hbc hc => decide_eq_true (hbc.trans (of_decide_eq_true hc))
  have hfirst : ∀ b ∈ l.takeWhile fun b => key b ≤ key a, key b ≤ key a :=
    fun b hb => of_decide_eq_true (List.mem_takeWhile_imp (p := fun b => key b ≤ key a) hb)
  have hrest : ∀ b ∈ l.dropWhile fun b => key b ≤ key a, key a ≤ key b := by
    intro b hb
    have hnot := of_decide_eq_false (eq_false_of_mem_dropWhile hdown hb)
    exact (not_le.mp hnot).le
  apply List.pairwise_append.mpr
  refine ⟨h.sublist (List.takeWhile_sublist _), ?_, ?_⟩
  · exact List.pairwise_cons.mpr ⟨hrest, h.sublist (List.dropWhile_sublist _)⟩
  · intro b hb c hc
    rcases List.mem_cons.mp hc with rfl | hc
    · exact hfirst b hb
    · exact (hfirst b hb).trans (hrest c hc)

/-- `insert`. -/
def insert (m : Multimap key) (a : α) : Multimap key where
  entries := insertEntry key a m.entries
  sorted := pairwise_insertEntry a m.sorted

/-- A sweep with the entries that it takes out. -/
def remove (m : Multimap key) (before upTo p : α → Bool) : Multimap key × List α :=
  (⟨(sweep before upTo p m.entries).1, m.sorted.sublist (sweep_sublist before upTo p m.entries)⟩,
    (sweep before upTo p m.entries).2)

/-- Between bounds on the key, everything with the property is taken out. -/
theorem remove_eq (m : Multimap key) {before upTo : α → Bool}
    (hbefore : ∀ a b, key a ≤ key b → before b = true → before a = true)
    (hupTo : ∀ a b, key a ≤ key b → upTo b = true → upTo a = true) (p : α → Bool) :
    (m.remove before upTo p).1.entries =
        m.entries.filter (fun a => !(!before a && upTo a && p a)) ∧
      (m.remove before upTo p).2 = m.entries.filter fun a => !before a && upTo a && p a := by
  have h := sweep_eq_filter (m.sorted.imp (hbefore _ _)) (m.sorted.imp (hupTo _ _)) p
  simp only [remove, h, and_self]

/-! ## The entries with a key -/

/-- `equal_range`. -/
def equalRange (m : Multimap key) (k : κ) : List α := m.entries.filter fun a => key a = k

/-- `erase` of the first entry in the range of `k` that has the property. -/
def eraseFirst (m : Multimap key) (k : κ) (p : α → Bool) : Multimap key where
  entries := m.entries.eraseP fun a => key a = k && p a
  sorted := m.sorted.sublist List.eraseP_sublist

/-- The entries in the range of `k` are changed in place. -/
def modifyRange (m : Multimap key) (k : κ) (f : α → α) (hf : ∀ a, key (f a) = key a) :
    Multimap key where
  entries := m.entries.map fun a => if key a = k then f a else a
  sorted := by
    have hkey : ∀ a, key (if key a = k then f a else a) = key a := by
      intro a
      split_ifs with h
      · exact hf a
      · rfl
    exact List.pairwise_map.mpr (m.sorted.imp fun hab => by rwa [hkey, hkey])

/-- The first entry in the range of `k` that has the property is changed in place. -/
def modifyFirst (m : Multimap key) (k : κ) (p : α → Bool) (f : α → α)
    (hf : ∀ a, key (f a) = key a) : Multimap key where
  entries := Lib.modifyFirst (fun a => key a = k && p a) f m.entries
  sorted := by
    have hsorted := List.pairwise_map.mpr m.sorted
    rw [← map_modifyFirst hf] at hsorted
    exact List.pairwise_map.mp hsorted

theorem mem_equalRange {m : Multimap key} {k : κ} {a : α} :
    a ∈ m.equalRange k ↔ a ∈ m.entries ∧ key a = k := by
  rw [equalRange, List.mem_filter, decide_eq_true_eq]

theorem find?_of_find?_equalRange {m : Multimap key} {k : κ} {p : α → Bool} {a : α}
    (h : (m.equalRange k).find? p = some a) :
    m.entries.find? (fun a => key a = k && p a) = some a := by
  rw [equalRange, List.find?_filter] at h
  simpa only [Bool.decide_and, decide_eq_true_eq, Bool.decide_eq_true] using h

theorem eraseFirst_perm {m : Multimap key} {k : κ} {p : α → Bool} {a : α}
    (h : (m.equalRange k).find? p = some a) :
    m.entries.Perm (a :: (m.eraseFirst k p).entries) :=
  perm_eraseP_of_find? (find?_of_find?_equalRange h)

/-! ## Intervals that wrap around -/

/-- `k` is between the bounds. When the first bound is above the second one, the interval goes on
from the greatest key to the smallest one. -/
def inInterval (first last k : κ) : Bool :=
  if last < first then first ≤ k || k ≤ last else first ≤ k && k ≤ last

/-- The sweeps over an interval, with the entries that they take out. -/
def removeInterval (m : Multimap key) (first last : κ) (p : α → Bool) : Multimap key × List α :=
  if last < first then
    let r := m.remove (fun a => key a < first) (fun _ => true) p
    let r' := r.1.remove (fun _ => false) (fun a => key a ≤ last) p
    (r'.1, r.2 ++ r'.2)
  else m.remove (fun a => key a < first) (fun a => key a ≤ last) p

theorem removeInterval_eq (m : Multimap key) (first last : κ) (p : α → Bool) :
    (m.removeInterval first last p).1.entries =
        m.entries.filter (fun a => !(inInterval first last (key a) && p a)) ∧
      (m.removeInterval first last p).2.Perm
        (m.entries.filter fun a => inInterval first last (key a) && p a) := by
  have hlow : ∀ k : κ, (!decide (k < first)) = decide (first ≤ k) := by
    intro k
    rw [← decide_not]
    exact decide_eq_decide.mpr not_lt
  have hbefore : ∀ a b : α, key a ≤ key b →
      decide (key b < first) = true → decide (key a < first) = true :=
    fun a b hab hb => decide_eq_true (hab.trans_lt (of_decide_eq_true hb))
  have hupTo : ∀ a b : α, key a ≤ key b →
      decide (key b ≤ last) = true → decide (key a ≤ last) = true :=
    fun a b hab hb => decide_eq_true (hab.trans (of_decide_eq_true hb))
  by_cases hwrapped : last < first
  · have hin : ∀ k : κ, inInterval first last k = (decide (first ≤ k) || decide (k ≤ last)) :=
      fun k => if_pos hwrapped
    have hnone : ∀ a b : α, key a ≤ key b →
        (fun _ : α => false) b = true → (fun _ : α => false) a = true := fun _ _ _ h => h
    obtain ⟨hkept, hret⟩ := m.remove_eq hbefore (fun _ _ _ _ => rfl) p
    set r := m.remove (fun a => key a < first) (fun _ => true) p with hr
    obtain ⟨hkept', hret'⟩ := r.1.remove_eq hnone hupTo p
    have hresult : m.removeInterval first last p =
        ((r.1.remove (fun _ => false) (fun a => key a ≤ last) p).1,
          r.2 ++ (r.1.remove (fun _ => false) (fun a => key a ≤ last) p).2) := by
      unfold removeInterval
      exact if_pos hwrapped
    rw [hkept, List.filter_filter] at hkept' hret'
    rw [hresult]
    dsimp only
    rw [hkept', hret, hret']
    -- What the first sweep leaves between the bounds is below the first one.
    constructor
    · apply List.filter_congr
      intro a _
      rw [hin, hlow]
      cases decide (first ≤ key a) <;> cases decide (key a ≤ last) <;> cases p a <;> rfl
    · have hsplit := List.filter_append_perm (fun a : α => first ≤ key a)
        (m.entries.filter fun a => inInterval first last (key a) && p a)
      rw [List.filter_filter, List.filter_filter] at hsplit
      refine List.Perm.trans (List.Perm.of_eq ?_) hsplit
      congr 1
      · apply List.filter_congr
        intro a _
        rw [hin, hlow]
        cases decide (first ≤ key a) <;> cases decide (key a ≤ last) <;> cases p a <;> rfl
      · apply List.filter_congr
        intro a _
        rw [hin, hlow]
        cases decide (first ≤ key a) <;> cases decide (key a ≤ last) <;> cases p a <;> rfl
  · have hin : ∀ a : α, (!decide (key a < first) && decide (key a ≤ last) && p a) =
        (inInterval first last (key a) && p a) := by
      intro a
      rw [hlow, inInterval, if_neg hwrapped]
    obtain ⟨hkept, hret⟩ := m.remove_eq hbefore hupTo p
    have hresult : m.removeInterval first last p =
        m.remove (fun a => key a < first) (fun a => key a ≤ last) p := by
      unfold removeInterval
      exact if_neg hwrapped
    simp only [hin] at hkept hret
    rw [hresult, hkept, hret]
    exact ⟨rfl, List.Perm.refl _⟩

/-- What a search over an interval returns. -/
def findInterval (m : Multimap key) (first last : κ) : List α :=
  if last < first then
    (m.entries.dropWhile fun a => key a < first) ++ m.entries.takeWhile fun a => key a ≤ last
  else (m.entries.dropWhile fun a => key a < first).takeWhile fun a => key a ≤ last

theorem dropWhile_lt_eq_filter (m : Multimap key) (k : κ) :
    (m.entries.dropWhile fun a => key a < k) = m.entries.filter fun a => k ≤ key a := by
  have hdown : m.entries.Pairwise fun a b => decide (key b < k) = true →
      decide (key a < k) = true :=
    m.sorted.imp fun hab hb => decide_eq_true (hab.trans_lt (of_decide_eq_true hb))
  rw [(while_eq_filter hdown).2]
  simp only [← decide_not, not_lt]

theorem takeWhile_le_eq_filter {l : List α} (h : l.Pairwise fun a b => key a ≤ key b) (k : κ) :
    (l.takeWhile fun a => key a ≤ k) = l.filter fun a => key a ≤ k := by
  have hdown : l.Pairwise fun a b => decide (key b ≤ k) = true → decide (key a ≤ k) = true :=
    h.imp fun hab hb => decide_eq_true (hab.trans (of_decide_eq_true hb))
  exact (while_eq_filter hdown).1

/-- A search over an interval finds what a removal without a further condition takes out. -/
theorem findInterval_perm (m : Multimap key) (first last : κ) :
    (m.findInterval first last).Perm (m.entries.filter fun a => inInterval first last (key a)) := by
  by_cases hwrapped : last < first
  · rw [findInterval, if_pos hwrapped, dropWhile_lt_eq_filter, takeWhile_le_eq_filter m.sorted]
    -- the two parts are those of the entries in the interval that are above the first bound or not
    have hsplit := List.filter_append_perm (fun a : α => first ≤ key a)
      (m.entries.filter fun a => inInterval first last (key a))
    rw [List.filter_filter, List.filter_filter] at hsplit
    refine List.Perm.trans (List.Perm.of_eq ?_) hsplit
    congr 1
    · refine List.filter_congr fun a _ => ?_
      by_cases hge : first ≤ key a <;> simp [inInterval, hwrapped, hge]
    · refine List.filter_congr fun a _ => ?_
      by_cases hle : key a ≤ last
      · simp [inInterval, hwrapped, hle, hle.trans_lt hwrapped]
      · by_cases hge : first ≤ key a <;> simp [inInterval, hwrapped, hle, hge]
  · rw [findInterval, if_neg hwrapped, dropWhile_lt_eq_filter,
      takeWhile_le_eq_filter (m.sorted.sublist List.filter_sublist), List.filter_filter]
    refine List.Perm.of_eq (List.filter_congr fun a _ => ?_)
    rw [inInterval, if_neg hwrapped, Bool.and_comm]

/-! ## Maps -/

/-- `insert` of a map. -/
def insertNew (m : Multimap key) (a : α) : Multimap key :=
  if ∃ b ∈ m.entries, key b = key a then m else m.insert a

theorem insertNew_of_mem {m : Multimap key} {a : α} (h : ∃ b ∈ m.entries, key b = key a) :
    m.insertNew a = m := if_pos h

theorem insertNew_perm {m : Multimap key} {a : α} (h : ∀ b ∈ m.entries, key b ≠ key a) :
    (m.insertNew a).entries.Perm (a :: m.entries) := by
  have hnone : ¬ ∃ b ∈ m.entries, key b = key a := by
    rintro ⟨b, hb, heq⟩
    exact h b hb heq
  unfold insertNew
  rw [if_neg hnone]
  exact insertEntry_perm a m.entries

theorem mem_insertNew_iff (m : Multimap key) (a : α) (k : κ) :
    (∃ b ∈ (m.insertNew a).entries, key b = k) ↔ key a = k ∨ ∃ b ∈ m.entries, key b = k := by
  by_cases h : ∃ b ∈ m.entries, key b = key a
  · rw [insertNew_of_mem h]
    constructor
    · exact Or.inr
    · rintro (rfl | hold)
      · exact h
      · exact hold
  · have hperm := insertNew_perm (m := m) (a := a) fun b hb heq => h ⟨b, hb, heq⟩
    constructor
    · rintro ⟨b, hb, rfl⟩
      rcases List.mem_cons.mp (hperm.mem_iff.mp hb) with rfl | hb
      · exact Or.inl rfl
      · exact Or.inr ⟨b, hb, rfl⟩
    · rintro (rfl | ⟨b, hb, rfl⟩)
      · exact ⟨a, hperm.mem_iff.mpr List.mem_cons_self, rfl⟩
      · exact ⟨b, hperm.mem_iff.mpr (List.mem_cons_of_mem _ hb), rfl⟩

theorem length_insertNew_le (m : Multimap key) (a : α) :
    (m.insertNew a).entries.length ≤ m.entries.length + 1 := by
  by_cases h : ∃ b ∈ m.entries, key b = key a
  · rw [insertNew_of_mem h]
    exact Nat.le_succ _
  · exact (insertNew_perm fun b hb heq => h ⟨b, hb, heq⟩).length_eq.le

def insertAll (m : Multimap key) (l : List α) : Multimap key := l.foldl insertNew m

theorem mem_insertAll_iff (m : Multimap key) (l : List α) (k : κ) :
    (∃ b ∈ (m.insertAll l).entries, key b = k) ↔
      (∃ a ∈ l, key a = k) ∨ ∃ b ∈ m.entries, key b = k := by
  induction l generalizing m with
  | nil => simp [insertAll]
  | cons a l ih =>
    change (∃ b ∈ ((m.insertNew a).insertAll l).entries, key b = k) ↔ _
    rw [ih, mem_insertNew_iff, List.exists_mem_cons_iff, or_left_comm, or_assoc]

theorem length_insertAll_le (m : Multimap key) (l : List α) :
    (m.insertAll l).entries.length ≤ m.entries.length + l.length := by
  induction l generalizing m with
  | nil => exact le_rfl
  | cons a l ih =>
    have hfirst := length_insertNew_le m a
    have hrest := ih (m.insertNew a)
    rw [List.length_cons]
    exact hrest.trans (by omega)

theorem insertAll_perm {m : Multimap key} {l : List α} (h : ((l ++ m.entries).map key).Nodup) :
    (m.insertAll l).entries.Perm (l ++ m.entries) := by
  induction l generalizing m with
  | nil => exact List.Perm.refl _
  | cons a l ih =>
    rw [List.cons_append, List.map_cons, List.nodup_cons] at h
    have hnew : ∀ b ∈ m.entries, key b ≠ key a := fun b hb heq =>
      h.1 (heq ▸ List.mem_map_of_mem (List.mem_append_right l hb))
    have hperm := (insertNew_perm hnew).append_left l
    have hmiddle : (l ++ (m.insertNew a).entries).Perm (a :: (l ++ m.entries)) :=
      hperm.trans List.perm_middle
    have hnodup : ((l ++ (m.insertNew a).entries).map key).Nodup := by
      apply (hmiddle.map key).nodup_iff.mpr
      exact List.nodup_cons.mpr h
    exact (ih hnodup).trans hmiddle

/-- Nothing was left out: the keys were different. -/
theorem nodup_of_length_insertAll {m : Multimap key} {l : List α} (hm : (m.entries.map key).Nodup)
    (h : (m.insertAll l).entries.length = m.entries.length + l.length) :
    ((l ++ m.entries).map key).Nodup := by
  induction l generalizing m with
  | nil => exact hm
  | cons a l ih =>
    change ((m.insertNew a).insertAll l).entries.length = _ at h
    have hle := length_insertAll_le (m.insertNew a) l
    by_cases hmem : ∃ b ∈ m.entries, key b = key a
    · rw [insertNew_of_mem hmem] at h hle
      rw [List.length_cons] at h
      omega
    · have hnew : ∀ b ∈ m.entries, key b ≠ key a := fun b hb heq => hmem ⟨b, hb, heq⟩
      have hperm := insertNew_perm hnew
      have hlength : ((m.insertNew a).insertAll l).entries.length =
          (m.insertNew a).entries.length + l.length := by
        rw [h, hperm.length_eq, List.length_cons, List.length_cons]
        omega
      have hnodup : ((m.insertNew a).entries.map key).Nodup := by
        apply (hperm.map key).nodup_iff.mpr
        rw [List.map_cons, List.nodup_cons]
        constructor
        · rintro hkey
          obtain ⟨b, hb, heq⟩ := List.mem_map.mp hkey
          exact hnew b hb heq
        · exact hm
      have hmiddle : (l ++ (m.insertNew a).entries).Perm (a :: (l ++ m.entries)) :=
        (hperm.append_left l).trans List.perm_middle
      exact (hmiddle.map key).nodup_iff.mp (ih hnodup hlength)

theorem insertAll_empty_perm {l : List α} (h : (l.map key).Nodup) :
    ((empty : Multimap key).insertAll l).entries.Perm l := by
  have happend : l ++ (empty : Multimap key).entries = l := List.append_nil l
  have hperm := insertAll_perm (m := empty) (l := l) (happend.symm ▸ h)
  rwa [happend] at hperm

theorem nodup_of_length_insertAll_empty {l : List α}
    (h : ((empty : Multimap key).insertAll l).entries.length = l.length) : (l.map key).Nodup := by
  have happend : l ++ (empty : Multimap key).entries = l := List.append_nil l
  have hnodup := nodup_of_length_insertAll (m := (empty : Multimap key)) (l := l) List.nodup_nil
    (h.trans (Nat.zero_add _).symm)
  rwa [happend] at hnodup

end Multimap

end MemEC.Lib
