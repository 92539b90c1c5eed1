import MemEC.Common.EvenOddDecode

/-!
# EVENODD keeps its promise

The missing diagonal `S` is recovered from what is left of a stripe. With it
every diagonal is an equation for the symbols on it, and the two lost columns
of the last case are repaired one row after the other.
-/

namespace MemEC.Common

open MemEC.Lib

variable {cfg : GlobalConfig}

/-- A diagonal goes through every row. -/
theorem sum_shift {p x : ℕ} (hx : x < p) (f : ℕ → Memory) :
    (∑ i ∈ Finset.range p, f ((i + p - x) % p)) = ∑ j ∈ Finset.range p, f j := by
  have hp : 0 < p := by omega
  apply Finset.sum_nbij' (fun i => (i + p - x) % p) (fun j => (x + j) % p)
  · exact fun i _ => Finset.mem_range.mpr (Nat.mod_lt _ hp)
  · exact fun j _ => Finset.mem_range.mpr (Nat.mod_lt _ hp)
  · intro i hi
    exact (RDPCoding.diagonal_iff hx (Nat.mod_lt _ hp) (Finset.mem_range.mp hi)).mpr rfl
  · intro j hj
    exact ((RDPCoding.diagonal_iff hx (Finset.mem_range.mp hj) (Nat.mod_lt _ hp)).mp rfl).symm
  · exact fun _ _ => rfl

namespace EvenOddCoding

open RDPCoding (Repaired)

variable {c : RDPCoding cfg} {chunks full : ℕ → Memory}

/-- The equations of the code, with `S` and with zero for the symbol behind the diagonal parity. -/
structure IsStripe (c : RDPCoding cfg) (full : ℕ → Memory) (s : Memory) : Prop where
  row : ∀ j < c.p - 1, ∑ x ∈ Finset.range (c.k + 1), c.symbol j (full x) = 0
  diagonal : ∀ i < c.p, diagonalSum c full i = c.column (full (c.k + 1)) i + s

/-! ## Loops over symbols -/

/-- A loop whose sources do not change adds them up. -/
theorem symbol_xorSymbols {skip : ℕ → Bool} {row : ℕ → ℕ} {dst r : ℕ} (n : ℕ)
    (hsource : ∀ x < n, skip x = false → x ≠ dst) (i j : ℕ) :
    c.symbol j (xorSymbols c skip row dst r n chunks i) = c.symbol j (chunks i) +
      if i = dst ∧ j = r then
        ∑ x ∈ Finset.range n, if skip x then 0 else c.symbol (row x) (chunks x)
      else 0 := by
  unfold xorSymbols
  induction n generalizing i j with
  | zero => simp
  | succ n ih =>
    have ih' := fun i j => ih (fun x hx => hsource x (by omega)) i j
    rw [List.range_succ, List.foldl_append, List.foldl_cons, List.foldl_nil,
      Finset.sum_range_succ]
    cases hskip : skip n with
    | true =>
      rw [if_pos rfl, if_pos rfl, add_zero]
      exact ih' i j
    | false =>
      have hsame : c.symbol (row n) ((List.range n).foldl (fun chunks cidx =>
          if skip cidx then chunks else c.xorChunks chunks dst r cidx (row cidx)) chunks n) =
            c.symbol (row n) (chunks n) := by
        rw [ih', if_neg fun h => hsource n (Nat.lt_succ_self n) hskip h.1, add_zero]
      rw [if_neg Bool.false_ne_true, if_neg Bool.false_ne_true, c.symbol_xorChunks, hsame, ih',
        add_assoc]
      congr 1
      split_ifs <;> simp

theorem symbol_xorBuffer (dst r : ℕ) (s : Memory) (i j : ℕ) :
    c.symbol j (xorBuffer c chunks dst r s i) =
      c.symbol j (chunks i) + if i = dst ∧ j = r then c.symbol 0 s else 0 := by
  unfold xorBuffer
  by_cases hi : i = dst
  · subst hi
    rw [Function.update_self, symbol_xorFromBuffer]
    simp only [true_and]
  · rw [Function.update_of_ne hi, if_neg fun h => hi h.1, add_zero]

theorem symbol_parity {dst r pidx : ℕ} (i j : ℕ) :
    c.symbol j ((if pidx ≠ c.p - 1 then c.xorChunks chunks dst r (c.k + 1) pidx else chunks) i) =
      c.symbol j (chunks i) +
        if i = dst ∧ j = r then c.column (chunks (c.k + 1)) pidx else 0 := by
  by_cases hlast : pidx = c.p - 1
  · rw [if_neg (not_not.mpr hlast), RDPCoding.column, if_pos hlast, ite_self, add_zero]
  · rw [if_pos hlast, c.symbol_xorChunks, RDPCoding.column, if_neg hlast]

/-! ## The missing diagonal -/

variable {s : Memory}

/-- The diagonal sum without the column of a lost chunk. -/
theorem sum_others {failed pidx : ℕ} (hfailed : failed < c.k)
    (hfull : IsStripe c full s) (hpidx : pidx < c.p) :
    (∑ x ∈ Finset.range c.k, if x = failed then 0
      else c.column (full x) ((pidx + c.p - x) % c.p)) =
      c.column (full (c.k + 1)) pidx + s +
        c.column (full failed) ((pidx + c.p - failed) % c.p) := by
  rw [sum_except (Finset.mem_range.mpr hfailed), ← hfull.diagonal pidx hpidx]
  rfl

/-- A chunk whose symbols are those of the stripe has its columns. -/
theorem column_congr {a b : Memory} (h : ∀ j < c.p - 1, c.symbol j a = c.symbol j b) {j : ℕ}
    (hj : j < c.p) : c.column a j = c.column b j := by
  unfold RDPCoding.column
  split_ifs with hlast
  · rfl
  · exact h j (by omega)

theorem pidx_start {failed : ℕ} (hp : c.p ≤ 2 ^ 24 + 1) (hpos : 0 < c.p) (hfailed : failed < c.p) :
    u32 (sub32 failed 1 + c.p) % c.p < c.p ∧
      (u32 (sub32 failed 1 + c.p) % c.p + c.p - failed) % c.p = c.p - 1 := by
  have hval : u32 (sub32 failed 1 + c.p) % c.p = if failed = 0 then c.p - 1 else failed - 1 := by
    split_ifs with h0
    · subst h0
      have hwrap : u32 (sub32 0 1 + c.p) = c.p - 1 := by
        simp only [sub32, u32]
        omega
      rw [hwrap, Nat.mod_eq_of_lt (by omega)]
    · rw [sub32_eq (by omega) (by omega), u32_eq (by omega), show failed - 1 + c.p =
        failed - 1 + 1 * c.p by omega, Nat.add_mul_mod_self_right, Nat.mod_eq_of_lt (by omega)]
  refine ⟨Nat.mod_lt _ hpos, ?_⟩
  rw [hval]
  split_ifs with h0
  · rw [h0, Nat.sub_zero, show c.p - 1 + c.p = c.p - 1 + 1 * c.p by omega,
      Nat.add_mul_mod_self_right, Nat.mod_eq_of_lt (by omega)]
  · rw [show failed - 1 + c.p - failed = c.p - 1 by omega, Nat.mod_eq_of_lt (by omega)]

/-- `S` is on the diagonal next to the lost chunk. -/
theorem symbol_recoverS (hp : c.p ≤ 2 ^ 24 + 1) (hk : c.k ≤ c.p) {failed : ℕ}
    (hfailed : failed < c.k) (hfull : IsStripe c full s)
    (hthere : ∀ i < c.k + 2, i ≠ failed → i ≠ c.k →
      ∀ j < c.p - 1, c.symbol j (chunks i) = c.symbol j (full i)) :
    c.symbol 0 (recoverS c failed chunks) = s := by
  obtain ⟨hpidx, hrow⟩ := pidx_start (c := c) hp (by omega) (show failed < c.p by omega)
  set pidx := u32 (sub32 failed 1 + c.p) % c.p with hset
  have hloop : ∀ n ≤ c.k, c.symbol 0 ((List.range n).foldl (fun s cidx =>
      if cidx = failed then s
      else xorSymbol s 0 (chunks cidx) ((pidx + c.p - cidx) % c.p * c.symbolSize)
        (0, c.symbolSize)) 0) = ∑ x ∈ Finset.range n, if x = failed then 0
          else c.column (full x) ((pidx + c.p - x) % c.p) := by
    intro n hn
    induction n with
    | zero => simp
    | succ n ih =>
      rw [List.range_succ, List.foldl_append, List.foldl_cons, List.foldl_nil,
        Finset.sum_range_succ, ← ih (by omega)]
      by_cases hf : n = failed
      · rw [if_pos hf, if_pos hf, add_zero]
      · rw [if_neg hf, if_neg hf, symbol_xorToBuffer]
        congr 1
        have hmod : (pidx + c.p - n) % c.p < c.p := Nat.mod_lt _ (by omega)
        have hne : (pidx + c.p - n) % c.p ≠ c.p - 1 := by
          intro heq
          have hon := (RDPCoding.diagonal_iff (x := n) (by omega) hmod hpidx).mpr rfl
          have hon' := (RDPCoding.diagonal_iff (x := failed) (by omega)
            (s := c.p - 1) (by omega) hpidx).mpr hrow.symm
          rw [heq] at hon
          exact hf (Nat.ModEq.eq_of_lt_of_lt
            (Nat.ModEq.add_right_cancel' (c.p - 1) (hon.trans hon'.symm)) (by omega) (by omega))
        rw [RDPCoding.column, if_neg hne]
        exact hthere n (by omega) hf (by omega) _ (by omega)
  have hzero : c.column (full failed) ((pidx + c.p - failed) % c.p) = 0 := by
    rw [RDPCoding.column, if_pos hrow]
  have hdata := hloop c.k le_rfl
  rw [sum_others hfailed hfull hpidx, hzero, add_zero] at hdata
  unfold recoverS
  dsimp only
  rw [← hset]
  split_ifs with hlast
  · rw [symbol_xorToBuffer, hdata, hthere (c.k + 1) (by omega) (by omega) (by omega) _ (by omega),
      RDPCoding.column, if_neg hlast, add_right_comm, Memory.add_self, zero_add]
  · rw [hdata, RDPCoding.column, if_pos (not_not.mp hlast), zero_add]

/-- A sum with an even number of equal terms. -/
theorem sum_const_even {n : ℕ} (hn : Even n) (m : Memory) :
    (∑ _i ∈ Finset.range n, m) = 0 := by
  obtain ⟨h, rfl⟩ := hn
  rw [Finset.sum_const, Finset.card_range, add_nsmul, Memory.add_self]

/-- `S` is the XOR of all symbols of the two parities, as the number of rows is even. -/
theorem symbol_xorParities (hp : c.p ≠ 2) (hprime : c.p.Prime) (hk : c.k ≤ c.p)
    (hfull : IsStripe c full s)
    (hrow : ∀ j < c.p - 1, c.symbol j (chunks c.k) = c.symbol j (full c.k))
    (hdiag : ∀ j < c.p - 1, c.symbol j (chunks (c.k + 1)) = c.symbol j (full (c.k + 1))) :
    c.symbol 0 (xorParities c chunks) = s := by
  have hp2 := hprime.two_le
  have hodd := hprime.odd_of_ne_two hp
  have hs : s = diagonalSum c full (c.p - 1) := by
    rw [hfull.diagonal _ (by omega), RDPCoding.column, if_pos rfl, zero_add]
  have hloop : ∀ n ≤ c.p - 2, c.symbol 0 ((List.range' 1 n).foldl (fun s sidx =>
      xorSymbol (xorSymbol s 0 (chunks c.k) (sidx * c.symbolSize) (0, c.symbolSize)) 0
        (chunks (c.k + 1)) (sidx * c.symbolSize) (0, c.symbolSize))
      (xorSymbol (Memory.copy 0 0 (chunks c.k) 0 c.symbolSize) 0 (chunks (c.k + 1)) 0
        (0, c.symbolSize))) = ∑ j ∈ Finset.range (n + 1),
          (c.symbol j (full c.k) + c.symbol j (full (c.k + 1))) := by
    intro n hn
    induction n with
    | zero =>
      have hcopy : c.symbol 0 (Memory.copy 0 0 (chunks c.k) 0 c.symbolSize) =
          c.symbol 0 (chunks c.k) := by
        apply c.symbol_eq_iff.mpr
        intro j hj
        simp [Memory.copy, hj]
      have hxor := symbol_xorToBuffer c 0 (Memory.copy 0 0 (chunks c.k) 0 c.symbolSize)
        (chunks (c.k + 1))
      rw [Nat.zero_mul] at hxor
      rw [List.range'_zero, List.foldl_nil, hxor, hcopy, hrow 0 (by omega), hdiag 0 (by omega),
        Finset.sum_range_one]
    | succ n ih =>
      rw [List.range'_concat, List.foldl_append, List.foldl_cons, List.foldl_nil,
        symbol_xorToBuffer, symbol_xorToBuffer, ih (by omega), Finset.sum_range_succ _ (n + 1),
        Nat.one_mul, hrow _ (by omega), hdiag _ (by omega), Nat.add_comm 1 n, add_assoc]
  have hall := hloop (c.p - 2) le_rfl
  rw [show c.p - 2 + 1 = c.p - 1 by omega, Finset.sum_add_distrib] at hall
  have hrows : (∑ j ∈ Finset.range (c.p - 1), c.symbol j (full c.k)) =
      ∑ j ∈ Finset.range (c.p - 1), ∑ x ∈ Finset.range c.k, c.symbol j (full x) := by
    apply Finset.sum_congr rfl
    intro j hj
    have h := hfull.row j (Finset.mem_range.mp hj)
    rw [Finset.sum_range_succ] at h
    rw [eq_neg_of_add_eq_zero_right h]
    rfl
  have hdiagonals : (∑ j ∈ Finset.range (c.p - 1), c.symbol j (full (c.k + 1))) =
      ∑ j ∈ Finset.range (c.p - 1), diagonalSum c full j := by
    have hconst := sum_const_even (n := c.p - 1) (Nat.Odd.sub_odd hodd odd_one) s
    rw [← add_zero (∑ j ∈ Finset.range (c.p - 1), c.symbol j (full (c.k + 1))), ← hconst,
      ← Finset.sum_add_distrib]
    apply Finset.sum_congr rfl
    intro j hj
    have hj' := Finset.mem_range.mp hj
    rw [hfull.diagonal j (by omega), RDPCoding.column, if_neg (by omega)]
  -- Over all diagonals each symbol of the data comes up once.
  have htotal : (∑ j ∈ Finset.range (c.p - 1), diagonalSum c full j) + s =
      ∑ j ∈ Finset.range (c.p - 1), ∑ x ∈ Finset.range c.k, c.symbol j (full x) := by
    rw [hs, ← Finset.sum_range_succ, show c.p - 1 + 1 = c.p by omega]
    unfold diagonalSum
    rw [Finset.sum_comm, Finset.sum_comm (s := Finset.range (c.p - 1))]
    apply Finset.sum_congr rfl
    intro x hx
    have hx' := Finset.mem_range.mp hx
    rw [sum_shift (by omega) (c.column (full x)), show c.p = c.p - 1 + 1 by omega,
      Finset.sum_range_succ]
    have hlast : c.column (full x) (c.p - 1) = 0 := if_pos rfl
    simp only [Nat.add_sub_cancel, hlast, add_zero]
    apply Finset.sum_congr rfl
    intro j hj
    have hj' := Finset.mem_range.mp hj
    rw [RDPCoding.column, if_neg (by omega)]
  unfold xorParities
  dsimp only
  rw [hall, hrows, hdiagonals, ← htotal, add_right_comm, Memory.add_self, zero_add]

/-! ## A symbol from its diagonal -/

theorem symbol_repairLost {skip : ℕ → Bool} {row : ℕ → ℕ} {dst r pidx : ℕ} {buffer : Memory}
    (hdst : dst < c.k) (hsource : ∀ x < c.k, skip x = false → x ≠ dst) (i j : ℕ) :
    c.symbol j (xorBuffer c (if pidx ≠ c.p - 1 then
        c.xorChunks (xorSymbols c skip row dst r c.k chunks) dst r (c.k + 1) pidx
      else xorSymbols c skip row dst r c.k chunks) dst r buffer i) =
      c.symbol j (chunks i) + if i = dst ∧ j = r then
        (∑ x ∈ Finset.range c.k, if skip x then 0 else c.symbol (row x) (chunks x)) +
          c.column (chunks (c.k + 1)) pidx + c.symbol 0 buffer
      else 0 := by
  have hparity : c.column (xorSymbols c skip row dst r c.k chunks (c.k + 1)) pidx =
      c.column (chunks (c.k + 1)) pidx := by
    have hsame : c.symbol pidx (xorSymbols c skip row dst r c.k chunks (c.k + 1)) =
        c.symbol pidx (chunks (c.k + 1)) := by
      rw [symbol_xorSymbols c.k hsource, if_neg fun h => absurd h.1 (by omega), add_zero]
    unfold RDPCoding.column
    rw [hsame]
  rw [symbol_xorBuffer, symbol_parity, hparity, symbol_xorSymbols c.k hsource]
  split_ifs
  · rw [add_assoc, add_assoc, add_assoc]
  · rw [add_zero, add_zero]

/-- What the diagonal leaves for the symbol of a lost chunk, when the other lost chunk has its
symbol on it in the row that is not there, or has been repaired there. -/
theorem sum_diagonal_others {failed r pidx : ℕ} (hfailed : failed < c.k)
    (hr : r < c.p - 1) (hfull : IsStripe c full s) (hpidx : pidx < c.p)
    (hrow : r = (pidx + c.p - failed) % c.p) {skip : ℕ → Bool}
    (hskip : ∀ x < c.k, (skip x = true ↔
      x = failed ∨ (pidx + c.p - x) % c.p = c.p - 1))
    (hsame : ∀ x < c.k, x ≠ failed → (pidx + c.p - x) % c.p < c.p - 1 →
      c.symbol ((pidx + c.p - x) % c.p) (chunks x) = c.symbol ((pidx + c.p - x) % c.p) (full x)) :
    (∑ x ∈ Finset.range c.k, if skip x then 0
        else c.symbol ((pidx + c.p - x) % c.p) (chunks x)) +
      c.column (full (c.k + 1)) pidx + s = c.symbol r (full failed) := by
  have hsum : (∑ x ∈ Finset.range c.k, if skip x then 0
      else c.symbol ((pidx + c.p - x) % c.p) (chunks x)) =
      c.column (full (c.k + 1)) pidx + s + c.symbol r (full failed) := by
    have hself : c.column (full failed) ((pidx + c.p - failed) % c.p) =
        c.symbol r (full failed) := by
      rw [← hrow, RDPCoding.column, if_neg (by omega)]
    rw [← hself, ← sum_others hfailed hfull hpidx]
    apply Finset.sum_congr rfl
    intro x hx
    have hx' := Finset.mem_range.mp hx
    have hmod : (pidx + c.p - x) % c.p < c.p := Nat.mod_lt _ (by omega)
    by_cases hf : x = failed
    · rw [if_pos hf, if_pos ((hskip x hx').mpr (Or.inl hf))]
    · rw [if_neg hf]
      unfold RDPCoding.column
      by_cases hlast : (pidx + c.p - x) % c.p = c.p - 1
      · rw [if_pos hlast, if_pos ((hskip x hx').mpr (Or.inr hlast))]
      · rw [if_neg hlast, if_neg fun h => ((hskip x hx').mp h).elim hf hlast]
        exact hsame x hx' hf (by omega)
  rw [hsum, add_assoc _ (c.column _ _) s, add_comm (c.column _ _ + s) (c.symbol _ _), add_assoc,
    Memory.add_self, add_zero]

/-! ## A data chunk and the row parity -/

theorem symbol_repairSymbol (hp2 : 2 ≤ c.p) (hk : c.k ≤ c.p) {failed r : ℕ}
    (hfailed : failed < c.k) (hr : r < c.p - 1) (hfull : IsStripe c full s) {buffer : Memory}
    (hs : c.symbol 0 buffer = s)
    (hthere : ∀ i < c.k + 2, i ≠ failed → i ≠ c.k →
      ∀ j < c.p - 1, c.symbol j (chunks i) = c.symbol j (full i)) (i j : ℕ) :
    c.symbol j (repairSymbol c failed buffer chunks r i) =
      c.symbol j (chunks i) + if i = failed ∧ j = r then c.symbol r (full failed) else 0 := by
  have hpidx : (failed + r) % c.p < c.p := Nat.mod_lt _ (by omega)
  have hrow : r = ((failed + r) % c.p + c.p - failed) % c.p :=
    (RDPCoding.diagonal_iff (by omega) (by omega) hpidx).mp rfl
  have hsource : ∀ x < c.k, (decide (x = failed) ||
      decide (c.p - 2 < ((failed + r) % c.p + c.p - x) % c.p)) = false → x ≠ failed := by
    rintro x - hskip rfl
    simp at hskip
  have hskip : ∀ x < c.k, ((decide (x = failed) ||
      decide (c.p - 2 < ((failed + r) % c.p + c.p - x) % c.p)) = true ↔
        x = failed ∨ ((failed + r) % c.p + c.p - x) % c.p = c.p - 1) := by
    intro x _
    have hmod : ((failed + r) % c.p + c.p - x) % c.p < c.p := Nat.mod_lt _ (by omega)
    rw [Bool.or_eq_true, decide_eq_true_eq, decide_eq_true_eq]
    omega
  have hparity : c.column (chunks (c.k + 1)) ((failed + r) % c.p) =
      c.column (full (c.k + 1)) ((failed + r) % c.p) :=
    column_congr (hthere (c.k + 1) (by omega) (by omega) (by omega)) hpidx
  have hsum := sum_diagonal_others hfailed hr hfull hpidx hrow hskip
    fun x hx hf hlt => hthere x (by omega) hf (by omega) _ hlt
  unfold repairSymbol
  rw [symbol_repairLost hfailed hsource, hparity, hs, hsum]

/-- The loop over the rows repairs the lost data chunk and leaves the others alone. -/
theorem symbol_foldl_repairSymbol (hp2 : 2 ≤ c.p) (hk : c.k ≤ c.p) {failed : ℕ}
    (hfailed : failed < c.k) (hfull : IsStripe c full s) {buffer : Memory}
    (hs : c.symbol 0 buffer = s)
    (hthere : ∀ i < c.k + 2, i ≠ failed → i ≠ c.k →
      ∀ j < c.p - 1, c.symbol j (chunks i) = c.symbol j (full i)) :
    ∀ n ≤ c.p - 1, ∀ i j, c.symbol j ((List.range n).foldl (repairSymbol c failed buffer) chunks i) =
      c.symbol j (chunks i) +
        if i = failed ∧ j < n then c.symbol j (full failed) else 0 := by
  intro n hn
  induction n with
  | zero => simp
  | succ n ih =>
    intro i j
    have ih' := ih (by omega)
    rw [List.range_succ, List.foldl_append, List.foldl_cons, List.foldl_nil]
    have hkept : ∀ i < c.k + 2, i ≠ failed → i ≠ c.k → ∀ j < c.p - 1,
        c.symbol j ((List.range n).foldl (repairSymbol c failed buffer) chunks i) =
          c.symbol j (full i) := by
      intro i hi hf hrow j hj
      rw [ih', if_neg fun h => hf h.1, add_zero]
      exact hthere i hi hf hrow j hj
    rw [symbol_repairSymbol hp2 hk hfailed (by omega) hfull hs hkept, ih', add_assoc]
    congr 1
    by_cases hi : i = failed
    · rcases lt_trichotomy j n with hlt | rfl | hgt
      · rw [if_pos ⟨hi, hlt⟩, if_neg fun h => hlt.ne h.2, if_pos ⟨hi, by omega⟩, add_zero]
      · rw [if_neg fun h => absurd h.2 (lt_irrefl _), if_pos ⟨hi, rfl⟩, if_pos ⟨hi, by omega⟩,
          zero_add]
      · rw [if_neg fun h => absurd h.2 (by omega), if_neg fun h => hgt.ne' h.2,
          if_neg fun h => absurd h.2 (by omega), add_zero]
    · rw [if_neg fun h => hi h.1, if_neg fun h => hi h.1, if_neg fun h => hi h.1, add_zero]

/-! ## Two data chunks -/

/-- One iteration recovers the two symbols of a row. -/
theorem repaired_step (hp2 : 2 ≤ c.p) (hk : c.k ≤ c.p) {failed₀ failed₁ pidx : ℕ}
    (h₀ : failed₀ < c.k) (h₁ : failed₁ < c.k) (hne : failed₀ ≠ failed₁)
    (hfull : IsStripe c full s) {buffer : Memory} (hs : c.symbol 0 buffer = s)
    (hpidx : pidx < c.p) {done : ℕ → Prop} (hr : (pidx + c.p - failed₁) % c.p < c.p - 1)
    (hnew : ¬ done ((pidx + c.p - failed₁) % c.p))
    (hother : (pidx + c.p - failed₀) % c.p = c.p - 1 ∨ done ((pidx + c.p - failed₀) % c.p))
    (h : Repaired c full failed₀ failed₁ done chunks) :
    Repaired c full failed₀ failed₁ (fun r => done r ∨ r = (pidx + c.p - failed₁) % c.p)
      (repairSymbols c failed₀ failed₁ buffer pidx ((pidx + c.p - failed₁) % c.p) chunks) := by
  set r := (pidx + c.p - failed₁) % c.p with hrow
  have hskip : ∀ x < c.k, ((decide (x = failed₁) || decide ((pidx + c.p - x) % c.p = r) ||
      decide ((pidx + c.p - x) % c.p = c.p - 1)) = true ↔
        x = failed₁ ∨ (pidx + c.p - x) % c.p = c.p - 1) := by
    intro x hx
    have hmod : (pidx + c.p - x) % c.p < c.p := Nat.mod_lt _ (by omega)
    have hon := (RDPCoding.diagonal_iff (x := x) (by omega) hmod hpidx).mpr rfl
    have hon' := (RDPCoding.diagonal_iff (x := failed₁) (s := r) (by omega) (by omega)
      hpidx).mpr hrow
    rw [Bool.or_eq_true, Bool.or_eq_true, decide_eq_true_eq,
      decide_eq_true_eq, decide_eq_true_eq]
    constructor
    · rintro ((hx₁ | hsame) | hlast)
      · exact Or.inl hx₁
      · rw [hsame] at hon
        exact Or.inl (Nat.ModEq.eq_of_lt_of_lt
          (Nat.ModEq.add_right_cancel' r (hon.trans hon'.symm)) (by omega) (by omega))
      · exact Or.inr hlast
    · rintro (hx₁ | hlast)
      · exact Or.inl (Or.inl hx₁)
      · exact Or.inr hlast
  have hsource : ∀ x < c.k, (decide (x = failed₁) || decide ((pidx + c.p - x) % c.p = r) ||
      decide ((pidx + c.p - x) % c.p = c.p - 1)) = false → x ≠ failed₁ := by
    rintro x - hfalse rfl
    simp at hfalse
  have hparity : c.column (chunks (c.k + 1)) pidx = c.column (full (c.k + 1)) pidx :=
    column_congr (fun j hj => h.there (c.k + 1) (by omega) j hj (Or.inl ⟨by omega, by omega⟩)) hpidx
  have hsame : ∀ x < c.k, x ≠ failed₁ → (pidx + c.p - x) % c.p < c.p - 1 →
      c.symbol ((pidx + c.p - x) % c.p) (chunks x) =
        c.symbol ((pidx + c.p - x) % c.p) (full x) := by
    intro x hx hx₁ hlt
    apply h.there x (by omega) _ hlt
    by_cases hx₀ : x = failed₀
    · subst hx₀
      exact Or.inr (hother.resolve_left (by omega))
    · exact Or.inl ⟨hx₀, hx₁⟩
  have hsum := sum_diagonal_others h₁ hr hfull hpidx hrow hskip hsame
  -- The diagonal gives the symbol of the second chunk.
  have hfirst : ∀ i j, c.symbol j (repairDiagonal c failed₁ buffer pidx r chunks i) =
      c.symbol j (chunks i) +
        if i = failed₁ ∧ j = r then c.symbol r (full failed₁) else 0 := by
    intro i j
    unfold repairDiagonal
    rw [symbol_repairLost h₁ hsource, hparity, hs, hsum]
  set repaired := repairDiagonal c failed₁ buffer pidx r chunks with hrepaired
  have hcol₁ : c.symbol r (repaired failed₁) = c.symbol r (full failed₁) := by
    rw [hfirst, if_pos ⟨rfl, rfl⟩, h.lost _ _ (Or.inr rfl) hr hnew, zero_add]
  -- The row gives the symbol of the first one.
  have hsecond : ∀ i j, c.symbol j (repairSymbols c failed₀ failed₁ buffer pidx r chunks i) =
      c.symbol j (repaired i) + if i = failed₀ ∧ j = r then
        ∑ x ∈ Finset.range (c.k + 1), if decide (x = failed₀) then 0
          else c.symbol r (repaired x) else 0 :=
    symbol_xorSymbols (c.k + 1) fun x _ hfalse => of_decide_eq_false hfalse
  have hcol₀ : c.symbol r (repairSymbols c failed₀ failed₁ buffer pidx r chunks failed₀) =
      c.symbol r (full failed₀) := by
    have hsymbols : (∑ x ∈ Finset.range (c.k + 1), if decide (x = failed₀) = true then 0
        else c.symbol r (repaired x)) = ∑ x ∈ Finset.range (c.k + 1), if x = failed₀ then 0
          else c.symbol r (full x) := by
      apply Finset.sum_congr rfl
      intro x hx
      have hx' := Finset.mem_range.mp hx
      by_cases hx₀ : x = failed₀
      · rw [if_pos hx₀, if_pos (by simpa using hx₀)]
      · rw [if_neg hx₀, if_neg (by simpa using hx₀)]
        by_cases hx₁ : x = failed₁
        · rw [hx₁, hcol₁]
        · rw [hfirst, if_neg fun h => hx₁ h.1, add_zero]
          exact h.there x (by omega) r hr (Or.inl ⟨hx₀, hx₁⟩)
    rw [hsecond, if_pos ⟨rfl, rfl⟩, hfirst, if_neg fun h => hne h.1, add_zero,
      h.lost _ _ (Or.inl rfl) hr hnew, zero_add, hsymbols,
      sum_except (Finset.mem_range.mpr (by omega)), hfull.row r hr, zero_add]
  have hkeep : ∀ i j, ¬ ((i = failed₀ ∨ i = failed₁) ∧ j = r) →
      c.symbol j (repairSymbols c failed₀ failed₁ buffer pidx r chunks i) =
        c.symbol j (chunks i) := by
    intro i j hij
    rw [hsecond, if_neg fun h => hij ⟨Or.inl h.1, h.2⟩, hfirst,
      if_neg fun h => hij ⟨Or.inr h.1, h.2⟩, add_zero, add_zero]
  constructor
  · intro i hi j hj hthere
    by_cases hij : (i = failed₀ ∨ i = failed₁) ∧ j = r
    · obtain ⟨rfl | rfl, rfl⟩ := hij
      · exact hcol₀
      · rw [hsecond, if_neg fun h => hne h.1.symm, add_zero]
        exact hcol₁
    · rw [hkeep i j hij]
      apply h.there i hi j hj
      rcases hthere with hothers | hdone | hnow
      · exact Or.inl hothers
      · exact Or.inr hdone
      · left
        constructor
        · exact fun heq => hij ⟨Or.inl heq, hnow⟩
        · exact fun heq => hij ⟨Or.inr heq, hnow⟩
  · intro i j hlost hj hnot
    rw [hkeep i j fun hij => hnot (Or.inr hij.2)]
    exact h.lost i j hlost hj fun hdone => hnot (Or.inl hdone)

/-- The outer loop of the decoder, from the diagonal after `n` iterations on. -/
theorem repaired_run [Fact c.p.Prime] (hk : c.k ≤ c.p) {failed₀ failed₁ : ℕ}
    (h₀ : failed₀ < c.k) (h₁ : failed₁ < c.k) (hne : failed₀ ≠ failed₁)
    (hfull : IsStripe c full s) {buffer : Memory} (hs : c.symbol 0 buffer = s) :
    ∀ (m n pidx : ℕ) (chunks : ℕ → Memory), n + m = c.p - 1 → pidx < c.p →
      (pidx : ZMod c.p) = failed₀ - 1 + (n : ℕ) * ((failed₀ : ZMod c.p) - failed₁) →
      Repaired c full failed₀ failed₁ (Visited ((failed₀ : ZMod c.p) - (failed₁ : ZMod c.p)) n)
        chunks →
      Repaired c full failed₀ failed₁ (Visited ((failed₀ : ZMod c.p) - (failed₁ : ZMod c.p))
        (c.p - 1))
        (repair c failed₀ failed₁ buffer m pidx chunks) := by
  have hp2 : 2 ≤ c.p := (Fact.out : c.p.Prime).two_le
  have hstride : (failed₀ : ZMod c.p) - failed₁ ≠ 0 := by
    intro h0
    exact hne (natCast_inj_of_lt (by omega) (by omega) (sub_eq_zero.mp h0))
  intro m
  induction m with
  | zero =>
    intro n pidx chunks hn _ _ h
    obtain rfl : n = c.p - 1 := by omega
    exact h
  | succ m ih =>
    intro n pidx chunks hn hlt hpidx h
    have hmod : (pidx + c.p - failed₁) % c.p < c.p := Nat.mod_lt _ (by omega)
    have hrow : (((pidx + c.p - failed₁) % c.p : ℕ) : ZMod c.p) =
        -1 + (n + 1 : ℕ) * ((failed₀ : ZMod c.p) - failed₁) := by
      rw [RDPCoding.natCast_diagonal (by omega), hpidx]
      push_cast
      ring
    have hback : (((pidx + c.p - failed₀) % c.p : ℕ) : ZMod c.p) =
        -1 + (n : ℕ) * ((failed₀ : ZMod c.p) - failed₁) := by
      rw [RDPCoding.natCast_diagonal (by omega), hpidx]
      ring
    have hr := ne_pred_of_step hstride (by omega) hrow
    have hstep := repaired_step hp2 hk h₀ h₁ hne hfull hs hlt (by omega)
      (not_visited_next hstride (by omega) hrow)
      (previous_visited (Nat.mod_lt _ (by omega)) hback) h
    apply ih (n + 1) _ _ (by omega) (Nat.mod_lt _ (by omega))
    · rw [ZMod.natCast_mod, Nat.cast_add, hrow]
      ring
    · apply hstep.congr
      intro row hrow'
      rw [visited_succ]
      apply or_congr_right
      constructor
      · rintro rfl
        exact hrow
      · intro heq
        exact natCast_inj_of_lt (by omega) hmod (heq.trans hrow.symm)

/-! ## The decoder -/

variable {data : ℕ → Memory}

theorem stripeChunk_row : stripeChunk (encode c) c.k data c.k =
    RAID5Coding.encode cfg (c.k + 1) data 0 := stripeChunk_add 0

theorem isStripe (hk : c.k ≤ c.p) (data : ℕ → Memory) :
    IsStripe c (stripeChunk (encode c) c.k data) (diagonalSum c data (c.p - 1)) where
  row j hj := by
    have hdata : (∑ x ∈ Finset.range c.k, c.symbol j (stripeChunk (encode c) c.k data x)) =
        ∑ x ∈ Finset.range c.k, c.symbol j (data x) :=
      Finset.sum_congr rfl fun x hx => by rw [stripeChunk_of_lt (Finset.mem_range.mp hx)]
    rw [Finset.sum_range_succ, stripeChunk_row, c.symbol_rowParity hj, hdata, Memory.add_self]
  diagonal i hi := by
    have hdata : diagonalSum c (stripeChunk (encode c) c.k data) i = diagonalSum c data i :=
      Finset.sum_congr rfl fun x hx => by rw [stripeChunk_of_lt (Finset.mem_range.mp hx)]
    rw [hdata, stripeChunk_add]
    unfold RDPCoding.column
    split_ifs with hlast
    · rw [hlast, zero_add]
    · rw [symbol_encode_two c hk (by omega), Memory.add_add_cancel_right]

/-- The diagonal parity is encoded once more. -/
theorem encode_restores (hdata : ∀ i < c.k + 1, SameChunk cfg (chunks i)
      (stripeChunk (encode c) c.k data i)) (hzero : SameChunk cfg (chunks (c.k + 1)) 0) :
    ∀ i < c.k + 2, SameChunk cfg (Function.update chunks (c.k + 1)
      (encode c chunks (chunks (c.k + 1)) 2 0 0) i) (stripeChunk (encode c) c.k data i) :=
  update_restores (accumulates c 2 0 0) (fun h => encode_congr c h 0 2) hdata hzero

/-- The row parity is encoded once more. -/
theorem encodeRow_restores (hdata : ∀ i < c.k + 2, i ≠ c.k → SameChunk cfg (chunks i)
      (stripeChunk (encode c) c.k data i)) (hzero : SameChunk cfg (chunks c.k) 0) (i : ℕ)
    (hi : i < c.k + 2) :
    SameChunk cfg (Function.update chunks c.k (encode c chunks (chunks c.k) 1 0 0) i)
      (stripeChunk (encode c) c.k data i) := by
  by_cases hik : i = c.k
  · subst hik
    rw [Function.update_self, stripeChunk_row]
    refine restores_of_accumulates (accumulates c 1 0 0) (encode_congr c (fun x hx => ?_) 0 1) hzero
    have hx' := hdata x (by omega) (by omega)
    rwa [stripeChunk_of_lt hx] at hx'
  · rw [Function.update_of_ne hik]
    exact hdata i hi hik

theorem clear_self (chunks : ℕ → Memory) (failed : ℕ) :
    SameChunk cfg (clear cfg chunks failed failed) 0 := by
  intro j hj
  unfold clear
  rw [Function.update_self]
  simp [Memory.fill, hj]

theorem clear_of_ne {failed i : ℕ} (h : i ≠ failed) : clear cfg chunks failed i = chunks i :=
  Function.update_of_ne h _ _

theorem p_le (c : RDPCoding cfg) : c.p ≤ 2 ^ 24 + 1 := by
  have hsize := cfg.chunkSize_le
  have hpos := cfg.le_chunkSize
  have hle : c.p - 1 ≤ cfg.chunkSize := by
    apply Nat.le_of_dvd (by omega)
    exact ⟨c.symbolSize, c.symbols.symm⟩
  omega

/-- A lost data chunk and the lost row parity. -/
theorem repairRow_restores (hp2 : 2 ≤ c.p) (hk : c.k ≤ c.p) {failed : ℕ} (hfailed : failed < c.k)
    (hthere : ∀ i < c.k + 2, i ≠ failed → i ≠ c.k →
      SameChunk cfg (chunks i) (stripeChunk (encode c) c.k data i))
    (hlost : SameChunk cfg (chunks failed) 0) :
    let repaired := (List.range (c.p - 1)).foldl
      (repairSymbol c failed (recoverS c failed chunks)) chunks
    (∀ i < c.k + 2, i ≠ c.k → SameChunk cfg (repaired i) (stripeChunk (encode c) c.k data i)) ∧
      (SameChunk cfg (chunks c.k) 0 → SameChunk cfg (repaired c.k) 0) := by
  have hfull := isStripe hk data
  have hsymbols : ∀ i < c.k + 2, i ≠ failed → i ≠ c.k → ∀ j < c.p - 1,
      c.symbol j (chunks i) = c.symbol j (stripeChunk (encode c) c.k data i) :=
    fun i hi hf hrow => c.sameChunk_iff_symbol.mp (hthere i hi hf hrow)
  have hs := symbol_recoverS (p_le c) hk hfailed hfull hsymbols
  have hloop := symbol_foldl_repairSymbol hp2 hk hfailed hfull hs hsymbols (c.p - 1) le_rfl
  constructor
  · intro i hi hrow
    apply c.sameChunk_iff_symbol.mpr
    intro j hj
    rw [hloop]
    by_cases hf : i = failed
    · subst hf
      rw [if_pos ⟨rfl, hj⟩, c.sameChunk_iff_symbol.mp hlost j hj, map_zero, zero_add]
    · rw [if_neg fun h => hf h.1, add_zero]
      exact hsymbols i hi hf hrow j hj
  · intro hzero
    apply c.sameChunk_iff_symbol.mpr
    intro j hj
    rw [hloop, if_neg fun h => absurd h.1 (by omega), add_zero]
    exact c.sameChunk_iff_symbol.mp hzero j hj

/-- Two lost data chunks. -/
theorem repair_restores (hprime : c.p.Prime) (hp : c.p ≠ 2) (hk : c.k ≤ c.p)
    {failed₀ failed₁ : ℕ} (h₀ : failed₀ < c.k) (h₁ : failed₁ < c.k) (hne : failed₀ ≠ failed₁)
    (hthere : ∀ i < c.k + 2, i ≠ failed₀ → i ≠ failed₁ →
      SameChunk cfg (chunks i) (stripeChunk (encode c) c.k data i))
    (hlost : ∀ i, i = failed₀ ∨ i = failed₁ → SameChunk cfg (chunks i) 0) (i : ℕ)
    (hi : i < c.k + 2) :
    SameChunk cfg (repair c failed₀ failed₁ (xorParities c chunks) (c.p - 1)
      (u32 (sub32 failed₀ 1 + c.p) % c.p) chunks i) (stripeChunk (encode c) c.k data i) := by
  have : Fact c.p.Prime := ⟨hprime⟩
  have hp2 := hprime.two_le
  have hfull := isStripe hk data
  have hs := symbol_xorParities hp hprime hk hfull
    (c.sameChunk_iff_symbol.mp (hthere c.k (by omega) (by omega) (by omega)))
    (c.sameChunk_iff_symbol.mp (hthere (c.k + 1) (by omega) (by omega) (by omega)))
  obtain ⟨hlt, hrow⟩ := pidx_start (c := c) (p_le c) (by omega) (show failed₀ < c.p by omega)
  have hpidx : ((u32 (sub32 failed₀ 1 + c.p) % c.p : ℕ) : ZMod c.p) =
      failed₀ - 1 + (0 : ℕ) * ((failed₀ : ZMod c.p) - failed₁) := by
    have hcast := congrArg (Nat.cast : ℕ → ZMod c.p) hrow
    rw [RDPCoding.natCast_diagonal (by omega), natCast_pred (by omega)] at hcast
    push_cast
    linear_combination hcast
  have hstart : Repaired c (stripeChunk (encode c) c.k data) failed₀ failed₁
      (Visited ((failed₀ : ZMod c.p) - (failed₁ : ZMod c.p)) 0) chunks := by
    constructor
    · intro i hi j hj hthere'
      rcases hthere' with hothers | hdone
      · exact c.sameChunk_iff_symbol.mp (hthere i hi hothers.1 hothers.2) j hj
      · exact absurd hdone (not_visited_zero j)
    · intro i j hij hj _
      rw [c.sameChunk_iff_symbol.mp (hlost i hij) j hj, map_zero]
  have hrun := repaired_run hk h₀ h₁ hne hfull hs (c.p - 1) 0 _ chunks (by omega) hlt hpidx hstart
  have hstride : (failed₀ : ZMod c.p) - failed₁ ≠ 0 := by
    intro h0
    exact hne (natCast_inj_of_lt (by omega) (by omega) (sub_eq_zero.mp h0))
  apply c.sameChunk_iff_symbol.mpr
  intro j hj
  exact hrun.there i hi j hj (Or.inr (visited_all hstride hj))

/-- With at most two chunks lost and cleared, the stripe is restored. -/
theorem decode_stripe (hprime : c.p.Prime) (hp : c.p ≠ 2) (hk : c.k ≤ c.p)
    (data chunks : ℕ → Memory) (bitmap : ℕ → Bool)
    (h : ∀ i < c.k + 2, SameChunk cfg (chunks i)
      (if bitmap i then stripeChunk (encode c) c.k data i else 0))
    (hle : (lostChunks (c.k + 2) bitmap).length ≤ 2) :
    ((decode c chunks bitmap).1 = true ↔ lostChunks (c.k + 2) bitmap ≠ []) ∧
      ∀ i < c.k + 2, SameChunk cfg ((decode c chunks bitmap).2 i)
        (stripeChunk (encode c) c.k data i) := by
  have hsucc := lostChunks_succ (c.k + 1) bitmap
  unfold decode
  match hlost : lostChunks (c.k + 2) bitmap with
  | [] => exact ⟨by simp, fun i hi => sameChunk_of_notMem_lost h hlost hi List.not_mem_nil⟩
  | [failed] =>
    have hlt := mem_lt_of_lostChunks hlost List.mem_cons_self
    have hothers : ∀ i < c.k + 2, i ≠ failed →
        SameChunk cfg (clear cfg chunks failed i) (stripeChunk (encode c) c.k data i) := by
      intro i hi hne
      rw [clear_of_ne hne]
      exact sameChunk_of_notMem_lost h hlost hi (by simpa using hne)
    by_cases hlast : failed = c.k + 1
    · subst hlast
      simp only [if_true]
      exact ⟨by simp, encode_restores (fun i hi => hothers i (by omega) (by omega)) (clear_self _ _)⟩
    · simp only [if_neg hlast]
      have hrow : lostChunks (c.k + 1) bitmap = [failed] := by
        have hb := bitmap_of_notMem_lost hlost (i := c.k + 1) (by omega)
          (by simpa using Ne.symm hlast)
        rwa [hlost, hb, if_pos rfl, List.append_nil, eq_comm] at hsucc
      have hencode : encode c data 0 1 0 0 = RAID5Coding.encode cfg (c.k + 1) data 0 := rfl
      obtain ⟨hrestored, hkeep⟩ := RAID5Coding.decode_row hencode hrow
        (fun i hi hne => hothers i (by omega) hne) (clear_self _ _)
      refine ⟨by simp, fun i hi => ?_⟩
      by_cases hik : i < c.k + 1
      · exact hrestored i hik
      · rw [hkeep i (by omega)]
        exact hothers i hi (by omega)
  | [failed₀, failed₁] =>
    have hsorted := pairwise_of_lostChunks hlost
    have hlt : failed₀ < failed₁ := by simpa using hsorted
    have hlt₁ := mem_lt_of_lostChunks hlost (i := failed₁) (by simp)
    have hothers : ∀ i < c.k + 2, i ≠ failed₀ → i ≠ failed₁ →
        SameChunk cfg (clear cfg (clear cfg chunks failed₀) failed₁ i)
          (stripeChunk (encode c) c.k data i) := by
      intro i hi hne₀ hne₁
      rw [clear_of_ne hne₁, clear_of_ne hne₀]
      exact sameChunk_of_notMem_lost h hlost hi (by simp [hne₀, hne₁])
    have hzero₁ : SameChunk cfg (clear cfg (clear cfg chunks failed₀) failed₁ failed₁) 0 :=
      clear_self _ _
    have hzero₀ : SameChunk cfg (clear cfg (clear cfg chunks failed₀) failed₁ failed₀) 0 := by
      rw [clear_of_ne hlt.ne]
      exact clear_self _ _
    by_cases hlast : failed₁ = c.k + 1
    · subst hlast
      simp only [if_true]
      have hrow : lostChunks (c.k + 1) bitmap = [failed₀] := by
        have hb := bitmap_of_mem_lost hlost (i := c.k + 1) (by simp)
        rw [hlost, hb, if_neg Bool.false_ne_true] at hsucc
        have hlists : [failed₀] ++ [c.k + 1] = lostChunks (c.k + 1) bitmap ++ [c.k + 1] := hsucc
        exact (List.append_inj_left' hlists rfl).symm
      have hencode : encode c data 0 1 0 0 = RAID5Coding.encode cfg (c.k + 1) data 0 := rfl
      obtain ⟨hrestored, hkeep⟩ := RAID5Coding.decode_row hencode hrow
        (fun i hi hne => hothers i (by omega) hne (by omega)) hzero₀
      refine ⟨by simp, encode_restores hrestored ?_⟩
      rw [hkeep _ (by omega)]
      exact hzero₁
    · by_cases hparity : failed₁ = c.k
      · subst hparity
        simp only [if_neg hlast, if_true]
        obtain ⟨hrestored, hzero⟩ := repairRow_restores (by have := hprime.two_le; omega) hk
          (by omega) (fun i hi hf hrow => hothers i hi hf hrow) hzero₀
        exact ⟨by simp, encodeRow_restores hrestored (hzero hzero₁)⟩
      · simp only [if_neg hlast, if_neg hparity]
        refine ⟨by simp, fun i hi => ?_⟩
        apply repair_restores hprime hp hk (by omega) (by omega) hlt.ne hothers _ i hi
        rintro i (rfl | rfl)
        · exact hzero₀
        · exact hzero₁
  | _ :: _ :: _ :: _ =>
    rw [hlost] at hle
    simp at hle

/-- EVENODD restores at most two lost chunks, for every number of data chunks and every chunk size
with which the code starts. -/
theorem decode_restores_evenOdd {k : ℕ} {hk : k ≤ 254} (hc : construct cfg k hk = some c)
    (data chunks : ℕ → Memory) (bitmap : ℕ → Bool)
    (h : ∀ i < k + 2, SameChunk cfg (chunks i)
      (if bitmap i then stripeChunk (encode c) k data i else 0))
    (hle : (lostChunks (k + 2) bitmap).length ≤ 2) :
    ((decode c chunks bitmap).1 = true ↔ lostChunks (k + 2) bitmap ≠ []) ∧
      ∀ i < k + 2, SameChunk cfg ((decode c chunks bitmap).2 i)
        (stripeChunk (encode c) k data i) := by
  obtain ⟨rfl, hprime, hkp, hp⟩ := construct_spec hc
  exact decode_stripe hprime hp hkp data chunks bitmap h hle

/-- The smallest chunks, three data chunks, and the last one and the row parity lost. -/
theorem decode_restores_rowParity : ∃ c, construct .smallest 3 (by decide) = some c ∧
    ∀ i < 5, SameChunk .smallest ((decode c
        (fun i => if i ≠ 2 ∧ i ≠ 3 then stripeChunk (encode c) 3 (fun i => .place i [7, 9]) i
          else 0) (fun i => i ≠ 2 ∧ i ≠ 3)).2 i)
      (stripeChunk (encode c) 3 (fun i => .place i [7, 9]) i) := by
  have hsome : (construct .smallest 3 (by decide)).isSome = true := by decide +kernel
  obtain ⟨c, hc⟩ := Option.isSome_iff_exists.mp hsome
  refine ⟨c, hc,
    (decode_restores_evenOdd hc (fun i => .place i [7, 9]) _ (fun i => i ≠ 2 ∧ i ≠ 3) ?_ ?_).2⟩
  · intro i _
    simp only [decide_eq_true_eq]
    exact SameChunk.refl _
  · decide

end EvenOddCoding

end MemEC.Common
