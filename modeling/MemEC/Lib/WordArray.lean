import Mathlib.Tactic

/-!
# Arrays of words

An allocated array knows its length, and a word of it is `none` until
something has been written there. An access outside the array has no result;
neither has the use of a word that was never written, though such a word may be
copied. Arrays of pairs are stored flat, with the two parts of entry `i` at
`2 * i` and `2 * i + 1`.
-/

namespace MemEC.Lib

/-- An array of words. -/
abbrev WordArray := List (Option ℕ)

namespace WordArray

/-- `new uint32_t[ n ]`. -/
def alloc (n : ℕ) : WordArray := List.replicate n none

/-- The word at `i`, written or not. -/
def load (a : WordArray) (i : ℕ) : Option (Option ℕ) := a[i]?

/-- The number at `i`. -/
def value (a : WordArray) (i : ℕ) : Option ℕ := a[i]?.bind id

/-- `a[ i ] = w`. -/
def store (a : WordArray) (i : ℕ) (w : Option ℕ) : Option WordArray :=
  if i < a.length then some (a.set i w) else none

/-- `memcpy` of the first `n` words. -/
def copyFront (dst src : WordArray) (n : ℕ) : Option WordArray :=
  if n ≤ dst.length ∧ n ≤ src.length then some (src.take n ++ dst.drop n) else none

/-- `dst[ 2 * i ] = src[ 2 * j ]` and `dst[ 2 * i + 1 ] = src[ 2 * j + 1 ]`. -/
def copyPair (dst : WordArray) (i : ℕ) (src : WordArray) (j : ℕ) : Option WordArray := do
  let a ← src.load (2 * j)
  let dst ← dst.store (2 * i) a
  let b ← src.load (2 * j + 1)
  dst.store (2 * i + 1) b

/-- The pair at `i`, word by word. -/
def loadPair (a : WordArray) (i : ℕ) : Option (Option ℕ × Option ℕ) := do
  let x ← a.load (2 * i)
  let y ← a.load (2 * i + 1)
  return (x, y)

/-- `a[ 2 * i ] = p.1` and `a[ 2 * i + 1 ] = p.2`. -/
def storePair (a : WordArray) (i : ℕ) (p : Option ℕ × Option ℕ) : Option WordArray := do
  let a ← a.store (2 * i) p.1
  a.store (2 * i + 1) p.2

/-! ## Pairs -/

/-- The array that holds the pairs `l`. -/
def ofPairs (l : List (Option ℕ × Option ℕ)) : WordArray := l.flatMap fun p => [p.1, p.2]

@[simp] theorem ofPairs_nil : ofPairs [] = [] := rfl

@[simp] theorem ofPairs_cons (p : Option ℕ × Option ℕ) (l : List (Option ℕ × Option ℕ)) :
    ofPairs (p :: l) = p.1 :: p.2 :: ofPairs l := rfl

variable {l d : List (Option ℕ × Option ℕ)} {i j n : ℕ}

@[simp] theorem length_ofPairs (l : List (Option ℕ × Option ℕ)) :
    (ofPairs l).length = 2 * l.length := by
  induction l with
  | nil => rfl
  | cons p l ih => rw [ofPairs_cons, List.length_cons, List.length_cons, ih, List.length_cons]; omega

theorem alloc_eq_ofPairs (n : ℕ) : alloc (2 * n) = ofPairs (List.replicate n (none, none)) := by
  induction n with
  | zero => rfl
  | succ n ih =>
    rw [List.replicate_succ, ofPairs_cons, ← ih]
    simp [alloc, Nat.mul_add, List.replicate_succ]

theorem getElem?_ofPairs (l : List (Option ℕ × Option ℕ)) (i : ℕ) :
    (ofPairs l)[2 * i]? = l[i]?.map Prod.fst ∧ (ofPairs l)[2 * i + 1]? = l[i]?.map Prod.snd := by
  induction l generalizing i with
  | nil => simp
  | cons p l ih =>
    cases i with
    | zero => simp
    | succ i =>
      have h : 2 * (i + 1) = 2 * i + 1 + 1 := by omega
      simpa only [h, ofPairs_cons, List.getElem?_cons_succ] using ih i

theorem load_ofPairs (h : i < l.length) : (ofPairs l).load (2 * i) = some l[i].1 := by
  rw [load, (getElem?_ofPairs l i).1, List.getElem?_eq_getElem h]
  rfl

theorem load_ofPairs_succ (h : i < l.length) : (ofPairs l).load (2 * i + 1) = some l[i].2 := by
  rw [load, (getElem?_ofPairs l i).2, List.getElem?_eq_getElem h]
  rfl

theorem value_ofPairs (h : i < l.length) : (ofPairs l).value (2 * i) = l[i].1 := by
  rw [value, (getElem?_ofPairs l i).1, List.getElem?_eq_getElem h]
  rfl

theorem value_ofPairs_succ (h : i < l.length) : (ofPairs l).value (2 * i + 1) = l[i].2 := by
  rw [value, (getElem?_ofPairs l i).2, List.getElem?_eq_getElem h]
  rfl

theorem set_ofPairs (l : List (Option ℕ × Option ℕ)) (i : ℕ) (p : Option ℕ × Option ℕ) :
    ((ofPairs l).set (2 * i) p.1).set (2 * i + 1) p.2 = ofPairs (l.set i p) := by
  induction l generalizing i with
  | nil => rfl
  | cons q l ih =>
    cases i with
    | zero => rfl
    | succ i =>
      have h : 2 * (i + 1) = 2 * i + 1 + 1 := by omega
      simpa only [h, ofPairs_cons, List.set_cons_succ, List.cons.injEq, true_and] using ih i

theorem loadPair_ofPairs (h : i < l.length) : (ofPairs l).loadPair i = some l[i] := by
  simp [loadPair, load_ofPairs h, load_ofPairs_succ h]

theorem storePair_ofPairs (h : i < l.length) (p : Option ℕ × Option ℕ) :
    (ofPairs l).storePair i p = some (ofPairs (l.set i p)) := by
  have h1 : 2 * i < (ofPairs l).length := by rw [length_ofPairs]; omega
  have h2 : 2 * i + 1 < ((ofPairs l).set (2 * i) p.1).length := by
    rw [List.length_set, length_ofPairs]; omega
  rw [← set_ofPairs]
  simp only [storePair, store, if_pos h1, Option.bind_eq_bind, Option.bind_some, if_pos h2]

theorem copyPair_ofPairs (hi : i < d.length) (hj : j < l.length) :
    (ofPairs d).copyPair i (ofPairs l) j = some (ofPairs (d.set i l[j])) := by
  have h := storePair_ofPairs hi l[j]
  simp only [storePair, Option.bind_eq_bind] at h
  simp only [copyPair, load_ofPairs hj, load_ofPairs_succ hj, Option.bind_eq_bind, Option.bind_some,
    h]

/-- Copying pair after pair copies the array. -/
theorem copyPairs_ofPairs (h : d.length = l.length) :
    (List.range l.length).foldlM (fun dst i => copyPair dst i (ofPairs l) i) (ofPairs d) =
      some (ofPairs l) := by
  have hstep : ∀ n ≤ l.length,
      (List.range n).foldlM (fun dst i => copyPair dst i (ofPairs l) i) (ofPairs d) =
        some (ofPairs (l.take n ++ d.drop n)) := by
    intro n hn
    induction n with
    | zero => simp
    | succ n ih =>
      have hnl : n < l.length := hn
      have hlen : n < (l.take n ++ d.drop n).length := by
        rw [List.length_append, List.length_take, List.length_drop]; omega
      rw [List.range_succ, List.foldlM_append, ih (Nat.le_of_succ_le hn)]
      simp only [List.foldlM_cons, List.foldlM_nil, Option.bind_eq_bind, Option.bind_some,
        copyPair_ofPairs hlen hnl]
      rw [List.set_append_right _ _ (by simp [Nat.min_eq_left hnl.le])]
      have hd : d.drop n = d[n] :: d.drop (n + 1) := List.drop_eq_getElem_cons (by omega)
      rw [List.length_take, Nat.min_eq_left hnl.le, Nat.sub_self, hd, List.set_cons_zero,
        List.take_succ_eq_append_getElem hnl, List.append_assoc, List.singleton_append]
      rfl
  have hall := hstep l.length le_rfl
  rwa [List.take_length, List.drop_eq_nil_of_le (Nat.le_of_eq h), List.append_nil] at hall

end WordArray

end MemEC.Lib
