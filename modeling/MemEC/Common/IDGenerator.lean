import MemEC.Common.Key

/-!
# The ids of the threads

Every thread takes its ids from a range of its own. When a thread has come to the
end of its range, it goes on with the value in front of the range, which is the
reserved id or the last one in the range of the thread before it.
-/

namespace MemEC.Common

/-- `IDGenerator`. -/
structure IDGenerator where
  rangeSize : ℕ
  currentValue : ℕ → ℕ
  limits : ℕ → ℕ

namespace IDGenerator

/-- `init`. -/
def init (numberOfThreads : UInt32) : IDGenerator :=
  -- reserve id = 0 as special case
  let rangeSize := (2 ^ 32 - 1 - 1 - 1) / numberOfThreads.toNat
  { rangeSize
    currentValue := fun i => u32 (rangeSize * i + 1)
    limits := fun i => u32 (rangeSize * i + 1 + sub32 rangeSize 1) }

variable (g : IDGenerator)

/-- The value of a thread behind the value `x`. -/
def advance (threadId x : ℕ) : ℕ :=
  if x = g.limits threadId then u32 (g.rangeSize * threadId) else u32 (x + 1)

def nextVal (threadId : ℕ) : IDGenerator × ℕ :=
  let value := g.advance threadId (g.currentValue threadId)
  ({ g with currentValue := Function.update g.currentValue threadId value }, value)

/-- The values that threads get which call `nextVal` one after the other. -/
def values (g : IDGenerator) : List ℕ → List (ℕ × ℕ)
  | [] => []
  | threadId :: threadIds =>
    let (g, value) := g.nextVal threadId
    (threadId, value) :: g.values threadIds

/-- The values of one thread. -/
def valuesOf (threadId : ℕ) (threadIds : List ℕ) : List ℕ :=
  ((g.values threadIds).filter fun p => p.1 = threadId).map Prod.snd

/-- A thread gets its values one behind the other, whatever the others do. -/
theorem valuesOf_eq (g : IDGenerator) (threadId : ℕ) (threadIds : List ℕ) :
    g.valuesOf threadId threadIds = (List.range (threadIds.count threadId)).map fun x =>
      (g.advance threadId)^[x + 1] (g.currentValue threadId) := by
  induction threadIds generalizing g with
  | nil => rfl
  | cons i threadIds ih =>
    have ih := ih (g.nextVal i).1
    have hadvance : (g.nextVal i).1.advance threadId = g.advance threadId := rfl
    have hvalues : g.values (i :: threadIds) =
        (i, (g.nextVal i).2) :: (g.nextVal i).1.values threadIds := rfl
    unfold valuesOf at ih ⊢
    rw [hvalues, List.count_cons]
    by_cases hi : i = threadId
    · subst hi
      have hcurrent : (g.nextVal i).1.currentValue i = g.advance i (g.currentValue i) :=
        Function.update_self _ _ _
      rw [List.filter_cons_of_pos (by simp), List.map_cons, ih, hadvance, hcurrent]
      simp only [beq_self_eq_true, if_true, List.range_succ_eq_map, List.map_cons, List.map_map]
      rfl
    · have hcurrent : (g.nextVal i).1.currentValue threadId = g.currentValue threadId :=
        Function.update_of_ne (Ne.symm hi) _ _
      rw [List.filter_cons_of_neg (by simpa using hi), ih, hadvance, hcurrent]
      simp [hi]

theorem mem_valuesOf {threadId : ℕ} {threadIds : List ℕ} {v : ℕ} :
    v ∈ g.valuesOf threadId threadIds ↔ ∃ x, 1 ≤ x ∧ x ≤ threadIds.count threadId ∧
      (g.advance threadId)^[x] (g.currentValue threadId) = v := by
  rw [valuesOf_eq, List.mem_map]
  constructor
  · rintro ⟨x, hx, rfl⟩
    have hlt := List.mem_range.mp hx
    exact ⟨x + 1, by omega, by omega, rfl⟩
  · rintro ⟨x, hpos, hle, rfl⟩
    refine ⟨x - 1, List.mem_range.mpr (by omega), ?_⟩
    rw [Nat.sub_add_cancel hpos]

end IDGenerator

/-! ## Threads of one generator -/

namespace IDGenerator

variable {n : UInt32}

/-- The size of the range of each thread. -/
def rangeOf (n : UInt32) : ℕ := (init n).rangeSize

theorem rangeOf_mul_le (t : Fin n.toNat) : rangeOf n * (t + 1) ≤ 2 ^ 32 - 3 :=
  calc rangeOf n * (t + 1) ≤ rangeOf n * n.toNat := Nat.mul_le_mul_left _ t.isLt
    _ ≤ 2 ^ 32 - 3 := Nat.div_mul_le_self _ _

/-- The value of a thread after `x` calls: its values go round the range and the value in front of
it. -/
theorem iterate_advance (hpos : rangeOf n ≠ 0) (t : Fin n.toNat) (x : ℕ) :
    ((init n).advance t)^[x] ((init n).currentValue t) =
      rangeOf n * t + (x + 1) % (rangeOf n + 1) := by
  have hbound := rangeOf_mul_le t
  rw [Nat.mul_add, Nat.mul_one] at hbound
  have hlimit : (init n).limits t = rangeOf n * t + rangeOf n := by
    change u32 (rangeOf n * t + 1 + sub32 (rangeOf n) 1) = _
    rw [sub32_eq (by omega) (by omega), u32_eq (by omega)]
    omega
  have hstart : (init n).currentValue t = rangeOf n * t + 1 := u32_eq (by
    change rangeOf n * t + 1 < _
    omega)
  induction x with
  | zero =>
    rw [Function.iterate_zero_apply, hstart, Nat.zero_add, Nat.mod_eq_of_lt (by omega)]
  | succ x ih =>
    have hmod := Nat.mod_lt (x + 1) (show 0 < rangeOf n + 1 by omega)
    have hnext := Nat.add_mod (x + 1) 1 (rangeOf n + 1)
    rw [Nat.mod_eq_of_lt (show 1 < rangeOf n + 1 by omega)] at hnext
    rw [Function.iterate_succ_apply', ih, advance, hlimit, hnext]
    change (if _ then u32 (rangeOf n * t) else _) = _
    split_ifs with hlast
    · rw [u32_eq (by omega), show (x + 1) % (rangeOf n + 1) = rangeOf n by omega, Nat.mod_self]
      rfl
    · rw [u32_eq (by omega), Nat.mod_eq_of_lt (show (x + 1) % (rangeOf n + 1) + 1 < _ by omega)]
      rfl

/-- With as many threads that nothing is left for a range, all threads get the same values. -/
theorem iterate_advance_zero (hzero : rangeOf n = 0) (t : Fin n.toNat) (x : ℕ) :
    ((init n).advance t)^[x] ((init n).currentValue t) = if x + 1 < 2 ^ 32 then x + 1 else 0 := by
  have hlimit : (init n).limits t = 0 := by
    change u32 (rangeOf n * t + 1 + sub32 (rangeOf n) 1) = _
    rw [hzero, Nat.zero_mul]
    decide
  have hstart : (init n).currentValue t = 1 := by
    change u32 (rangeOf n * t + 1) = _
    rw [hzero, Nat.zero_mul]
    decide
  have hfront : u32 ((init n).rangeSize * t) = 0 := by
    change u32 (rangeOf n * t) = 0
    rw [hzero, Nat.zero_mul]
    rfl
  induction x with
  | zero => rw [Function.iterate_zero_apply, hstart, if_pos (by norm_num)]
  | succ x ih =>
    rw [Function.iterate_succ_apply', ih, advance, hlimit, hfront]
    rcases Nat.lt_trichotomy (x + 2) (2 ^ 32) with hlt | heq | hgt
    · rw [if_pos (show x + 1 < 2 ^ 32 by omega), if_neg (by omega), if_pos hlt, u32_eq hlt]
    · rw [if_pos (show x + 1 < 2 ^ 32 by omega), if_neg (by omega), if_neg (by omega), heq]
      rfl
    · rw [if_neg (show ¬x + 1 < 2 ^ 32 by omega), if_pos rfl, if_neg (by omega)]

/-- The values of one of the threads that call `nextVal` in this order. -/
def handedOut (n : UInt32) (calls : List (Fin n.toNat)) (t : Fin n.toNat) : List ℕ :=
  (init n).valuesOf t (calls.map Fin.val)

/-- What ids are for. -/
structure Separate (n : UInt32) (calls : List (Fin n.toNat)) : Prop where
  apart : ∀ t u, t ≠ u → ∀ v ∈ handedOut n calls t, v ∉ handedOut n calls u
  nonzero : ∀ t, 0 ∉ handedOut n calls t
  period : ∀ t j k v, j < k → (handedOut n calls t)[j]? = some v →
    (handedOut n calls t)[k]? = some v → rangeOf n ≤ k - j

/-- The number of the call that gives a thread the last value of its range. -/
def lastCall (rangeSize : ℕ) : ℕ := if rangeSize = 1 then 2 else rangeSize - 1

/-- The first thread does not go beyond its range, and no thread does while the one before it comes
to the end of its own. -/
def WithinRanges (n : UInt32) (calls : List (Fin n.toNat)) : Prop :=
  if rangeOf n = 0 then (∀ t ∈ calls, ∀ u ∈ calls, t = u) ∧ calls.length < 2 ^ 32 - 1
  else (∀ t : Fin n.toNat, t.val = 0 → calls.count t < rangeOf n) ∧
    ∀ t u : Fin n.toNat, u.val = t.val + 1 →
      calls.count u < rangeOf n ∨ calls.count t < lastCall (rangeOf n)

variable {calls : List (Fin n.toNat)} {t u : Fin n.toNat} {v : ℕ}

theorem count_map_val (calls : List (Fin n.toNat)) (t : Fin n.toNat) :
    (calls.map Fin.val).count t.val = calls.count t :=
  List.count_map_of_injective calls Fin.val Fin.val_injective t

theorem mem_handedOut (hpos : rangeOf n ≠ 0) : v ∈ handedOut n calls t ↔ ∃ x, 1 ≤ x ∧
    x ≤ calls.count t ∧ rangeOf n * t + (x + 1) % (rangeOf n + 1) = v := by
  rw [handedOut, mem_valuesOf, count_map_val]
  simp only [iterate_advance hpos]

/-- A value comes again only after a whole round. -/
theorem period_handedOut {j k : ℕ} (hjk : j < k) (hj : (handedOut n calls t)[j]? = some v)
    (hk : (handedOut n calls t)[k]? = some v) : rangeOf n ≤ k - j := by
  rcases Nat.eq_zero_or_pos (rangeOf n) with hzero | hpos
  · omega
  · rw [handedOut, valuesOf_eq, List.getElem?_map, Option.map_eq_some_iff] at hj hk
    obtain ⟨x, hx, hvj⟩ := hj
    obtain ⟨y, hy, hvk⟩ := hk
    obtain ⟨_, hxj⟩ := List.getElem?_eq_some_iff.mp hx
    obtain ⟨_, hyk⟩ := List.getElem?_eq_some_iff.mp hy
    rw [List.getElem_range] at hxj hyk
    rw [iterate_advance hpos.ne', ← hxj] at hvj
    rw [iterate_advance hpos.ne', ← hyk] at hvk
    have hmod : (j + 1 + 1) % (rangeOf n + 1) = (k + 1 + 1) % (rangeOf n + 1) := by omega
    have hdvd := (Nat.modEq_iff_dvd' (by omega)).mp hmod
    have hle := Nat.le_of_dvd (by omega) hdvd
    omega

theorem lastCall_pos (hpos : rangeOf n ≠ 0) : 1 ≤ lastCall (rangeOf n) := by
  unfold lastCall
  split_ifs <;> omega

theorem lastCall_mod (hpos : rangeOf n ≠ 0) :
    (lastCall (rangeOf n) + 1) % (rangeOf n + 1) = rangeOf n := by
  unfold lastCall
  split_ifs with hone
  · rw [hone]
  · rw [Nat.sub_add_cancel (Nat.one_le_iff_ne_zero.mpr hpos), Nat.mod_eq_of_lt (Nat.lt_succ_self _)]

/-- No call before that one gives the last value. -/
theorem lastCall_le {x : ℕ} (hx : 1 ≤ x) (hlast : (x + 1) % (rangeOf n + 1) = rangeOf n) :
    lastCall (rangeOf n) ≤ x := by
  unfold lastCall
  split_ifs with hone
  · rw [hone] at hlast
    omega
  · by_contra hlt
    rw [Nat.mod_eq_of_lt (by omega)] at hlast
    omega

theorem range_le {y : ℕ} (hfront : (y + 1) % (rangeOf n + 1) = 0) : rangeOf n ≤ y := by
  have hle := Nat.le_of_dvd (Nat.succ_pos y) (Nat.dvd_of_mod_eq_zero hfront)
  omega

/-- Two threads share the value in front of a range only. -/
theorem shared {t u x y rangeSize : ℕ} (hpos : rangeSize ≠ 0) (htu : t < u)
    (heq : rangeSize * t + (x + 1) % (rangeSize + 1) = rangeSize * u + (y + 1) % (rangeSize + 1)) :
    u = t + 1 ∧ (x + 1) % (rangeSize + 1) = rangeSize ∧ (y + 1) % (rangeSize + 1) = 0 := by
  have hx : (x + 1) % (rangeSize + 1) < rangeSize + 1 := Nat.mod_lt _ (Nat.succ_pos rangeSize)
  obtain ⟨d, rfl⟩ := Nat.exists_eq_add_of_lt htu
  have hsplit : rangeSize * (t + d + 1) = rangeSize * t + rangeSize * d + rangeSize := by ring
  rw [hsplit] at heq
  have hd : rangeSize * d = 0 := by omega
  rcases Nat.mul_eq_zero.mp hd with hzero | rfl
  · exact absurd hzero hpos
  · exact ⟨rfl, by omega, by omega⟩

theorem separate_of_withinRanges (hpos : rangeOf n ≠ 0) (h : WithinRanges n calls) :
    Separate n calls := by
  unfold WithinRanges at h
  rw [if_neg hpos] at h
  obtain ⟨hfirst, hnext⟩ := h
  have hlt : ∀ t u : Fin n.toNat, t.val < u.val → ∀ v ∈ handedOut n calls t,
      v ∉ handedOut n calls u := by
    intro t u htu v ht hu
    obtain ⟨x, hx, hxle, rfl⟩ := (mem_handedOut hpos).mp ht
    obtain ⟨y, -, hyle, heq⟩ := (mem_handedOut hpos).mp hu
    obtain ⟨hsucc, hlast, hfront⟩ := shared hpos htu heq.symm
    have hrange := range_le hfront
    have hcall := lastCall_le hx hlast
    rcases hnext t u hsucc with hu | ht
    · omega
    · omega
  refine ⟨fun t u htu v ht hu => ?_, fun t hzero => ?_, fun t j k v => period_handedOut⟩
  · rcases Nat.lt_or_gt_of_ne (Fin.val_ne_of_ne htu) with hless | hless
    · exact hlt t u hless v ht hu
    · exact hlt u t hless v hu ht
  · obtain ⟨x, -, hle, heq⟩ := (mem_handedOut hpos).mp hzero
    have hprod : rangeOf n * t = 0 := by omega
    have ht : t.val = 0 := (Nat.mul_eq_zero.mp hprod).resolve_left hpos
    have hrange := range_le (n := n) (y := x) (by omega)
    have hcalls := hfirst t ht
    omega

theorem withinRanges_of_separate (hpos : rangeOf n ≠ 0) (h : Separate n calls) :
    WithinRanges n calls := by
  unfold WithinRanges
  rw [if_neg hpos]
  have hround : ∀ t : Fin n.toNat, rangeOf n ≤ calls.count t →
      rangeOf n * t ∈ handedOut n calls t := fun t ht =>
    (mem_handedOut hpos).mpr ⟨rangeOf n, Nat.one_le_iff_ne_zero.mpr hpos, ht, by
      rw [Nat.mod_self, Nat.add_zero]⟩
  constructor
  · intro t ht
    by_contra hle
    have hzero := hround t (Nat.not_lt.mp hle)
    rw [ht, Nat.mul_zero] at hzero
    exact h.nonzero t hzero
  · intro t u hsucc
    by_contra hboth
    obtain ⟨hu, ht⟩ := not_or.mp hboth
    have hlast : rangeOf n * u ∈ handedOut n calls t := by
      refine (mem_handedOut hpos).mpr ⟨_, lastCall_pos hpos, Nat.not_lt.mp ht, ?_⟩
      rw [lastCall_mod hpos, hsucc, Nat.mul_add, Nat.mul_one]
    have hne : t ≠ u := fun heq => by
      rw [heq] at hsucc
      omega
    exact h.apart t u hne _ hlast (hround u (Nat.not_lt.mp hu))

theorem mem_handedOut_zero (hzero : rangeOf n = 0) : v ∈ handedOut n calls t ↔ ∃ x, 1 ≤ x ∧
    x ≤ calls.count t ∧ (if x + 1 < 2 ^ 32 then x + 1 else 0) = v := by
  rw [handedOut, mem_valuesOf, count_map_val]
  simp only [iterate_advance_zero hzero]

/-- Without a range, a thread has to be alone. -/
theorem separate_iff_of_zero (hzero : rangeOf n = 0) :
    Separate n calls ↔ WithinRanges n calls := by
  unfold WithinRanges
  rw [if_pos hzero]
  constructor
  · intro h
    have hfirst : ∀ t ∈ calls, 2 ∈ handedOut n calls t := fun t ht =>
      (mem_handedOut_zero hzero).mpr ⟨1, le_rfl, List.count_pos_iff.mpr ht, by norm_num⟩
    have hone : ∀ t ∈ calls, ∀ u ∈ calls, t = u := by
      intro t ht u hu
      by_contra htu
      exact h.apart t u htu 2 (hfirst t ht) (hfirst u hu)
    refine ⟨hone, Nat.not_le.mp fun hlong => ?_⟩
    cases calls with
    | nil => exact absurd hlong (by norm_num)
    | cons t calls =>
      have hcount : (t :: calls).count t = (t :: calls).length :=
        List.count_eq_length.mpr (hone t List.mem_cons_self)
      refine h.nonzero t ((mem_handedOut_zero hzero).mpr ⟨2 ^ 32 - 1, by norm_num, ?_, by norm_num⟩)
      rwa [hcount]
  · rintro ⟨hone, hshort⟩
    refine ⟨fun t u htu v ht hu => ?_, fun t hmem => ?_, fun t j k v => period_handedOut⟩
    · obtain ⟨x, hx, hxle, -⟩ := (mem_handedOut_zero hzero).mp ht
      obtain ⟨y, hy, hyle, -⟩ := (mem_handedOut_zero hzero).mp hu
      exact htu (hone t (List.count_pos_iff.mp (by omega)) u (List.count_pos_iff.mp (by omega)))
    · obtain ⟨x, -, hxle, heq⟩ := (mem_handedOut_zero hzero).mp hmem
      have hlength : calls.count t ≤ calls.length := List.count_le_length
      rw [if_pos (by omega)] at heq
      omega

/-- The ids keep apart exactly if the threads stay within their ranges. -/
theorem separate_iff (n : UInt32) (calls : List (Fin n.toNat)) :
    Separate n calls ↔ WithinRanges n calls := by
  by_cases hzero : rangeOf n = 0
  · exact separate_iff_of_zero hzero
  · exact ⟨withinRanges_of_separate hzero, separate_of_withinRanges hzero⟩

/-- With four threads, the first one gets the reserved id from its 1073741823rd call. -/
theorem not_separate_of_round :
    ¬∀ (n : UInt32) (calls : List (Fin n.toNat)), Separate n calls := by
  intro h
  have hrange : rangeOf 4 = 1073741823 := rfl
  let t : Fin (4 : UInt32).toNat := ⟨0, by decide⟩
  have hzero : 0 ∈ handedOut 4 (List.replicate 1073741823 t) t := by
    refine (mem_handedOut (by rw [hrange]; norm_num)).mpr ⟨1073741823, by norm_num, ?_, ?_⟩
    · rw [List.count_replicate_self]
    · rw [hrange]
      norm_num [t]
  exact (h 4 (List.replicate 1073741823 t)).nonzero t hzero

end IDGenerator

end MemEC.Common
