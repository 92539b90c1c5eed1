import Mathlib.Tactic
import MemEC.Coordinator.DegradedLock

/-!
# The degraded locks of a stripe

A lock that is created from a request that names all lost chunks holds the
entries of the request, sorted, and a request that names no further chunk leaves
it as it is. What goes wrong otherwise is the allocation: an entry takes two
words of each array, and both `dup` and `expand` allocate one for each entry they add.
-/

namespace MemEC.Coordinator

open MemEC.Common MemEC.Lib

@[simp] theorem wordsOf_length (l : List (ℕ × ℕ)) : (wordsOf l).length = 2 * l.length := by
  simp [wordsOf]

namespace DegradedLock

variable {lock : DegradedLock} {es : List LockEntry} {i n : ℕ}

/-- The lock holds the entries `es`: both arrays are exactly as long as these take, and every word
has been written. -/
structure Holds (lock : DegradedLock) (es : List LockEntry) : Prop where
  original : lock.original = wordsOf (es.map LockEntry.original)
  reconstructed : lock.reconstructed = wordsOf (es.map LockEntry.reconstructed)
  reconstructedCount : lock.reconstructedCount = some es.length

/-! ## Access to the arrays -/

section Access

variable {l : List LockEntry} {f : LockEntry → ℕ × ℕ}

theorem loadPair_wordsOf (h : i < l.length) :
    (wordsOf (l.map f)).loadPair i = some (some (f l[i]).1, some (f l[i]).2) := by
  rw [wordsOf, WordArray.loadPair_ofPairs (by simpa using h)]
  simp

theorem value_wordsOf (h : i < l.length) :
    (wordsOf (l.map f)).value (2 * i) = some (f l[i]).1 := by
  rw [wordsOf, WordArray.value_ofPairs (by simpa using h)]
  simp

theorem value_wordsOf_succ (h : i < l.length) :
    (wordsOf (l.map f)).value (2 * i + 1) = some (f l[i]).2 := by
  rw [wordsOf, WordArray.value_ofPairs_succ (by simpa using h)]
  simp

theorem copyPair_wordsOf {m : ℕ} (hi : i < l.length) (hm : m < l.length) :
    (wordsOf (l.map f)).copyPair i (wordsOf (l.map f)) m = some (wordsOf ((l.set i l[m]).map f)) := by
  rw [wordsOf, WordArray.copyPair_ofPairs (by simpa using hi) (by simpa using hm)]
  simp [wordsOf, List.map_set]

theorem storePair_wordsOf {x : LockEntry} (h : i < l.length) :
    (wordsOf (l.map f)).storePair i (some (f x).1, some (f x).2) =
      some (wordsOf ((l.set i x).map f)) := by
  rw [wordsOf, WordArray.storePair_ofPairs (by simpa using h)]
  simp [wordsOf, List.map_set]

theorem copyPairs_wordsOf (l : List (ℕ × ℕ)) :
    (List.range l.length).foldlM (fun dst i => WordArray.copyPair dst i (wordsOf l) i)
      (WordArray.alloc (l.length * 2)) = some (wordsOf l) := by
  have h := WordArray.copyPairs_ofPairs (l := l.map fun p => (some p.1, some p.2))
    (d := List.replicate l.length (none, none)) (by simp)
  rw [← WordArray.alloc_eq_ofPairs, List.length_map] at h
  rwa [Nat.mul_comm l.length 2]

end Access

/-! ## `sort` -/

/-- The lost chunk of an entry. -/
def chunk (e : LockEntry) : ℕ := e.original.2

theorem lesser_eq {m j : ℕ} (hm : m < es.length) (hj : j < es.length) :
    lesser (wordsOf (es.map LockEntry.original)) m j =
      some (if chunk es[j] < chunk es[m] then j else m) := by
  rw [lesser, value_wordsOf_succ hj, value_wordsOf_succ hm]
  rfl

/-- The search of a round finds a least element of the part that is not sorted. -/
theorem search_spec (hi : i < es.length) (k : ℕ) (hk : i + 1 + k ≤ es.length) :
    ∃ m, (List.range' (i + 1) k).foldlM (lesser (wordsOf (es.map LockEntry.original))) i = some m ∧
      IsMinFrom chunk es i (i + 1 + k) m := by
  induction k with
  | zero => exact ⟨i, rfl, IsMinFrom.refl hi⟩
  | succ k ih =>
    obtain ⟨m, hm, hmin⟩ := ih (by omega)
    have hk' : i + 1 + k < es.length := by omega
    refine ⟨_, ?_, hmin.next hmin.lt hk' (by omega)⟩
    rw [List.range'_concat, List.foldlM_append, hm]
    simp only [Option.bind_eq_bind, Option.bind_some, List.foldlM_cons, List.foldlM_nil, Nat.one_mul,
      lesser_eq hmin.lt hk']
    rfl

theorem Holds.sortRound (h : lock.Holds es) (hi : i < es.length) :
    ∃ m hm lock', IsMinFrom chunk es i es.length m ∧
      lock.sortRound es.length i = some lock' ∧ lock'.Holds (exchange es i m hi hm) ∧
      lock'.ongoingAtChunk = lock.ongoingAtChunk := by
  obtain ⟨m, hm, hmin⟩ := search_spec hi (es.length - (i + 1)) (by omega)
  have hn : i + 1 + (es.length - (i + 1)) = es.length := by omega
  rw [hn] at hmin
  have hml := hmin.lt
  have hm' : m < (es.set i es[m]).length := by simpa using hml
  refine ⟨m, hml,
    { lock with
      original := wordsOf ((exchange es i m hi hml).map LockEntry.original)
      reconstructed := wordsOf ((exchange es i m hi hml).map LockEntry.reconstructed) },
    hmin, ?_, ⟨rfl, rfl, ?_⟩, rfl⟩
  · simp only [DegradedLock.sortRound, h.original, h.reconstructed, loadPair_wordsOf hi, hm,
      copyPair_wordsOf hi hml, storePair_wordsOf hm', Option.bind_eq_bind, Option.bind_some]
    rfl
  · rw [length_exchange]
    exact h.reconstructedCount

/-- Sorting keeps the entries and orders them by their lost chunks. -/
theorem Holds.sort (h : lock.Holds es) :
    ∃ lock' es', lock.sort = some lock' ∧ lock'.Holds es' ∧ es'.Perm es ∧
      (es'.Pairwise fun a b => chunk a ≤ chunk b) := by
  have hrounds : ∀ n ≤ es.length, ∃ lock' es',
      (List.range n).foldlM (DegradedLock.sortRound es.length) lock = some lock' ∧
        lock'.Holds es' ∧ es'.Perm es ∧ SortedUpTo chunk es' n := by
    intro n hn
    induction n with
    | zero => exact ⟨lock, es, rfl, h, List.Perm.refl es, sortedUpTo_zero⟩
    | succ n ih =>
      obtain ⟨lock₁, es₁, hrun, h₁, hperm, hsorted⟩ := ih (Nat.le_of_succ_le hn)
      have hlen := hperm.length_eq
      have hn' : n < es₁.length := by omega
      obtain ⟨m, hm, lock₂, hmin, hround, h₂, -⟩ := h₁.sortRound hn'
      refine ⟨lock₂, exchange es₁ n m hn' hm, ?_, h₂, ?_, hsorted.round hn' hmin⟩
      · rw [List.range_succ, List.foldlM_append, hrun]
        simp only [Option.bind_eq_bind, Option.bind_some, List.foldlM_cons, List.foldlM_nil,
          ← hlen, hround]
        rfl
      · exact (exchange_perm hn' hm).trans hperm
  obtain ⟨lock', es', hrun, h', hperm, hsorted⟩ := hrounds es.length le_rfl
  refine ⟨lock', es', ?_, h', hperm, ?_⟩
  · rw [DegradedLock.sort, h.reconstructedCount]
    exact hrun
  · rw [← hperm.length_eq] at hsorted
    exact hsorted.pairwise

/-! ## `dup` and `expand` -/

/-- A lock that names all lost chunks is duplicated and sorted. -/
theorem Holds.dup (h : lock.Holds es) (hne : es ≠ []) {survivingChunkIds : List ℕ} {chunkCount : ℕ}
    (hcount : chunkCount < 2 ^ 32) (hall : survivingChunkIds.length + es.length = chunkCount) :
    ∃ lock' es', lock.dup survivingChunkIds chunkCount = some lock' ∧ lock'.Holds es' ∧
      es'.Perm es ∧ (es'.Pairwise fun a b => chunk a ≤ chunk b) := by
  have hpos : 0 < es.length := List.length_pos_iff.mpr hne
  have hnew : sub32 (sub32 chunkCount survivingChunkIds.length) es.length = 0 := by
    rw [sub32_eq hcount (by omega), sub32_eq (by omega) (by omega)]
    omega
  have hload : ∃ w, (wordsOf (es.map LockEntry.original)).load 0 = some w :=
    ⟨_, List.getElem?_eq_getElem (by simpa using hpos)⟩
  obtain ⟨w, hw⟩ := hload
  have horiginal := copyPairs_wordsOf (es.map LockEntry.original)
  have hreconstructed := copyPairs_wordsOf (es.map LockEntry.reconstructed)
  rw [List.length_map] at horiginal hreconstructed
  have hdup : lock.dup survivingChunkIds chunkCount = lock.sort := by
    rw [DegradedLock.dup, h.reconstructedCount]
    simp only [Option.bind_eq_bind, Option.bind_some, if_neg hpos.ne', h.original, hw, hnew,
      if_neg (show ¬ chunkCount ≤ 0 by omega), Nat.add_zero, horiginal, h.reconstructed,
      hreconstructed, if_true]
    rw [← h.original, ← h.reconstructed, ← h.reconstructedCount]
  rw [hdup]
  exact h.sort

theorem anyM_eq_some {α : Type} {p : α → Option Bool} {b : α → Bool} {l : List α}
    (h : ∀ a ∈ l, p a = some (b a)) : l.anyM p = some (l.any b) := by
  induction l with
  | nil => rfl
  | cons a l ih =>
    have htail := ih fun x hx => h x (List.mem_cons_of_mem a hx)
    rw [List.anyM, h a List.mem_cons_self, List.any_cons, htail]
    cases b a <;> rfl

theorem mapM_eq_some {α β : Type} {f : α → Option β} {g : α → β} {l : List α}
    (h : ∀ a ∈ l, f a = some (g a)) : l.mapM f = some (l.map g) := by
  induction l with
  | nil => rfl
  | cons a l ih =>
    have htail := ih fun x hx => h x (List.mem_cons_of_mem a hx)
    rw [List.mapM_cons, h a List.mem_cons_self, htail]
    rfl

/-- The search of `expand` finds the lost chunks that the lock names. -/
theorem Holds.has (h : lock.Holds es) (listId chunkId : ℕ) :
    lock.has es.length listId chunkId =
      some ((List.range es.length).any fun j =>
        (es[j]?.map LockEntry.original) == some (listId, chunkId)) := by
  refine anyM_eq_some fun j hj => ?_
  have hj' : j < es.length := List.mem_range.mp hj
  rw [h.original, value_wordsOf hj', value_wordsOf_succ hj', List.getElem?_eq_getElem hj']
  rcases hp : es[j].original with ⟨l, c⟩
  by_cases hl : l = listId
  · simp [hp, hl]
  · simp [hp, hl]

theorem Holds.isNew (h : lock.Holds es) {r : LockRequest} (hi : i < r.entries.length)
    (hknown : ∃ e ∈ es, e.original = r.entries[i].original) :
    lock.isNew es.length r.original i = some false := by
  obtain ⟨e, he, heq⟩ := hknown
  obtain ⟨j, hj, hje⟩ := List.mem_iff_getElem.mp he
  have hfound : ((List.range es.length).any fun j =>
      (es[j]?.map LockEntry.original) == some r.entries[i].original) = true := by
    refine List.any_eq_true.mpr ⟨j, List.mem_range.mpr hj, ?_⟩
    rw [List.getElem?_eq_getElem hj, hje]
    simp [heq]
  simp only [DegradedLock.isNew, LockRequest.original, value_wordsOf hi, value_wordsOf_succ hi,
    Option.bind_eq_bind, Option.bind_some, h.has, hfound]
  rfl

/-- A request that names no further chunk changes nothing. -/
theorem Holds.expand (h : lock.Holds es) (hne : es ≠ []) {r : LockRequest}
    (hknown : ∀ e' ∈ r.entries, ∃ e ∈ es, e.original = e'.original) (chunkCount : ℕ) :
    lock.expand r.original r.reconstructed r.entries.length r.ongoingAtChunk r.survivingChunkIds
      chunkCount = some lock := by
  have hpos : es.length ≠ 0 := (List.length_pos_iff.mpr hne).ne'
  have hnew : (List.range r.entries.length).mapM (lock.isNew es.length r.original) =
      some ((List.range r.entries.length).map fun _ => false) :=
    mapM_eq_some fun i hi =>
      h.isNew (List.mem_range.mp hi) (hknown _ (List.getElem_mem (List.mem_range.mp hi)))
  have hcount : ((List.range r.entries.length).map fun _ => false).count true = 0 := by
    simp [List.count_eq_zero]
  rw [DegradedLock.expand, h.reconstructedCount]
  simp only [Option.bind_eq_bind, Option.bind_some, if_neg hpos, h.reconstructedCount, hnew, hcount,
    if_true]
  split_ifs <;> rfl

end DegradedLock

end MemEC.Coordinator
