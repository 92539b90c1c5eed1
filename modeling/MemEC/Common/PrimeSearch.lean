import MemEC.Common.PrimeCode

/-!
# The search for the prime

The loops of `getPrime` and `getSymbolSize` with the reads of the table that
they make. A read behind the table, a division by zero and a loop that does not
come to its end are told apart from a result.
-/

namespace MemEC.Common

open MemEC.Lib

/-- What a loop over the table may run into. -/
inductive TableFault
  | outside
  | zeroDivisor
  | endless

/-- `primeList[ i ]` as a read of the table. -/
def readPrime (i : ℕ) : Except TableFault ℕ :=
  match primeList[i]? with
  | some p => .ok p
  | none => .error .outside

/-- `x % d` and `x / d`. -/
def divMod (x d : ℕ) : Except TableFault (ℕ × ℕ) :=
  if d = 0 then .error .zeroDivisor else .ok (x / d, x % d)

/-- The binary search on the list of prime numbers, for at most `fuel` rounds. `old` is what `_p`
holds before, `bound` what the prime is compared with, and `accepts` tells whether the first of two
neighbours will do. -/
def searchLoop (old bound : ℕ) (accepts : ℕ → Bool) : ℕ → ℕ → ℕ → Except TableFault ℕ
  | 0, start, stop => if start < stop then .error .endless else .ok old
  | fuel + 1, start, stop =>
    if start < stop then
      let mid := (start + stop) / 2
      (readPrime mid).bind fun p =>
        let start' := if p < bound then mid else start
        let stop' := if bound ≤ p then mid else stop
        if start' + 1 = stop' then
          (readPrime start').bind fun p => .ok (if accepts p then start' else stop')
        else searchLoop old bound accepts fuel start' stop'
    else .ok old

/-- `RDPCoding::getPrime`. -/
def RDPCoding.getPrimeRun (old : ℕ) (k : UInt32) : Except TableFault ℕ :=
  searchLoop old (k + 1).toNat (fun p => (k + 1).toNat ≤ p) primeCount 0 (primeCount - 1)

/-- `EvenOddCoding::getPrime`. -/
def EvenOddCoding.getPrimeRun (old : ℕ) (k : UInt32) : Except TableFault ℕ :=
  searchLoop old k.toNat (fun p => k.toNat ≤ p && p != 2) primeCount 0 (primeCount - 1)

/-- The loop of `getSymbolSize`, which reads the table before it looks at the index. -/
def scanLoop (chunkSize : ℕ) : ℕ → ℕ → Except TableFault ℕ
  | 0, _ => .error .endless
  | fuel + 1, pp =>
    (readPrime pp).bind fun p =>
      (divMod chunkSize (p - 1)).bind fun r =>
        if r.2 ≠ 0 ∧ pp < primeCount then scanLoop chunkSize fuel (pp + 1) else .ok pp

/-- `getSymbolSize` for the prime that `getPrime` has found: the prime and the size of a symbol, or
`none` if the process exits. -/
def getSymbolSizeRun (prime : Except TableFault ℕ) (chunkSize : UInt32) :
    Except TableFault (Option (ℕ × ℕ)) :=
  prime.bind fun pp =>
    (scanLoop chunkSize.toNat (primeCount + 1) pp).bind fun pp =>
      if pp = primeCount then .ok none
      else
        (readPrime pp).bind fun p =>
          (divMod chunkSize.toNat (p - 1)).bind fun r => .ok (some (p, r.1))

/-! ## The loops within the table -/

variable {old bound : ℕ} {accepts : ℕ → Bool} {fuel start stop pp chunkSize i : ℕ}

theorem length_primeList : primeList.length = primeCount := by decide +kernel

theorem readPrime_eq (hi : i < primeCount) : readPrime i = .ok (primeAt i) := by
  have hlt : i < primeList.length := length_primeList ▸ hi
  have hread : primeList[i]? = some primeList[i] := List.getElem?_eq_getElem hlt
  have hat : primeAt i = primeList[i] := by
    rw [primeAt, List.getD_eq_getElem?_getD, hread, Option.getD_some]
  rw [readPrime, hread, hat]

/-- The one of two neighbours that the search returns. -/
def chosen (accepts : ℕ → Bool) (r : ℕ × ℕ) : ℕ := if accepts (primeAt r.1) then r.1 else r.2

/-- The search stays in the table and halves the interval until two neighbours are left. -/
theorem searchLoop_eq (hlt : start + 2 ≤ stop) (hstop : stop < primeCount)
    (hfuel : stop ≤ start + fuel) :
    searchLoop old bound accepts fuel start stop =
      .ok (chosen accepts (bisect (fun i => primeAt i < bound) fuel start stop)) := by
  induction fuel generalizing start stop with
  | zero => omega
  | succ fuel ih =>
    have hlow : start < (start + stop) / 2 := by omega
    have hhigh : (start + stop) / 2 < stop := by omega
    rw [searchLoop, bisect, if_pos (by omega), if_pos (by omega)]
    dsimp only
    rw [readPrime_eq (hhigh.trans hstop)]
    dsimp only [Except.bind]
    by_cases hmid : primeAt ((start + stop) / 2) < bound
    · rw [if_pos hmid, if_neg (Nat.not_le.mpr hmid), decide_eq_true hmid, if_pos rfl, if_pos rfl]
      by_cases hnext : (start + stop) / 2 + 1 = stop
      · rw [if_pos hnext, if_pos hnext, readPrime_eq (hhigh.trans hstop), chosen]
      · rw [if_neg hnext, if_neg hnext]
        exact ih (by omega) hstop (by omega)
    · rw [if_neg hmid, if_pos (Nat.not_lt.mp hmid), decide_eq_false hmid,
        if_neg Bool.false_ne_true, if_neg Bool.false_ne_true]
      by_cases hnext : start + 1 = (start + stop) / 2
      · rw [if_pos hnext, if_pos hnext, readPrime_eq (by omega), chosen]
      · rw [if_neg hnext, if_neg hnext]
        exact ih (by omega) (by omega) (by omega)

/-- The whole table is searched. -/
theorem searchLoop_bisected (old bound : ℕ) (accepts : ℕ → Bool) :
    ∃ r, Bisected (fun i => primeAt i < bound) 0 (primeCount - 1) r ∧
      searchLoop old bound accepts primeCount 0 (primeCount - 1) = .ok (chosen accepts r) ∧
      chosen accepts r < primeCount := by
  have hr : Bisected (fun i => primeAt i < bound) 0 (primeCount - 1)
    (bisect _ primeCount 0 (primeCount - 1)) := bisected (by decide) (by decide)
  refine ⟨_, hr, searchLoop_eq (by decide) (by decide) (by decide), ?_⟩
  have hnext := hr.next
  have hstop := hr.le_stop
  have hcount : primeCount = 168 := rfl
  unfold chosen
  split_ifs <;> omega

/-- With its reads the search has the result that it has without them. -/
theorem RDPCoding.getPrimeRun_eq {k : UInt32} (hk : k.toNat + 1 < 2 ^ 32) :
    getPrimeRun old k = .ok (getPrime k.toNat) := by
  have hadd : (k + 1).toNat = (k.toNat + 1) % 2 ^ 32 := UInt32.toNat_add k 1
  rw [getPrimeRun, searchLoop_eq (by decide) (by decide) (by decide), hadd, Nat.mod_eq_of_lt hk]
  simp only [chosen, getPrime, decide_eq_true_eq]

theorem EvenOddCoding.getPrimeRun_eq (k : UInt32) :
    getPrimeRun old k = .ok (getPrime k.toNat) := by
  rw [getPrimeRun, searchLoop_eq (by decide) (by decide) (by decide)]
  simp only [chosen, getPrime, Bool.and_eq_true, decide_eq_true_eq, bne_iff_ne]

theorem divMod_primeAt (hi : i < primeCount) :
    divMod chunkSize (primeAt i - 1) =
      .ok (chunkSize / (primeAt i - 1), chunkSize % (primeAt i - 1)) := by
  have hlow := (primeAt_table i hi).1
  rw [divMod, if_neg (by omega)]

theorem scanLoop_succ (hpp : pp < primeCount) :
    scanLoop chunkSize (fuel + 1) pp =
      if chunkSize % (primeAt pp - 1) ≠ 0 ∧ pp < primeCount then scanLoop chunkSize fuel (pp + 1)
      else .ok pp := by
  simp only [scanLoop, readPrime_eq hpp, divMod_primeAt hpp, Except.bind]

/-- The scan ends at the first prime that fits, if there is one. -/
theorem scanLoop_eq {j : ℕ} (hle : pp ≤ j) (hj : j < primeCount)
    (hfits : chunkSize % (primeAt j - 1) = 0)
    (hfirst : ∀ i, pp ≤ i → i < j → chunkSize % (primeAt i - 1) ≠ 0) (hfuel : j < pp + fuel) :
    scanLoop chunkSize fuel pp = .ok j := by
  induction fuel generalizing pp with
  | zero => omega
  | succ fuel ih =>
    have hpp : pp < primeCount := by omega
    rw [scanLoop_succ hpp]
    rcases hle.eq_or_lt with rfl | hlt
    · rw [if_neg fun h => h.1 hfits]
    · rw [if_pos ⟨hfirst pp le_rfl hlt, hpp⟩]
      exact ih hlt (fun i hi => hfirst i (by omega)) (by omega)

/-- Where the scan is without a fault. -/
theorem getSymbolSize_eq_some {r : ℕ × ℕ} (h : getSymbolSize pp chunkSize = some r) :
    ∃ l, pp ≤ l ∧ l < primeCount ∧ r = (primeAt l, chunkSize / (primeAt l - 1)) ∧
      chunkSize % (primeAt l - 1) = 0 ∧
        ∀ j, pp ≤ j → j < l → chunkSize % (primeAt j - 1) ≠ 0 := by
  obtain ⟨l, hl, rfl⟩ := Option.map_eq_some_iff.mp h
  obtain ⟨hfits, hmem, hfirst⟩ := List.find?_range'_eq_some.mp hl
  obtain ⟨hle, hlt⟩ := List.mem_range'_1.mp hmem
  refine ⟨l, hle, by omega, rfl, of_decide_eq_true hfits, fun j hj hjl => ?_⟩
  have hnot := hfirst j hj hjl
  simpa using hnot

theorem exists_getSymbolSize {j : ℕ} (hle : pp ≤ j) (hj : j < primeCount)
    (hfits : primeAt j - 1 ∣ chunkSize) : ∃ r, getSymbolSize pp chunkSize = some r := by
  have hmem : j ∈ List.range' pp (primeCount - pp) := List.mem_range'_1.mpr ⟨hle, by omega⟩
  have hsome : ((List.range' pp (primeCount - pp)).find?
      fun i => chunkSize % (primeAt i - 1) = 0).isSome :=
    List.find?_isSome.mpr ⟨j, hmem, decide_eq_true (Nat.mod_eq_zero_of_dvd hfits)⟩
  obtain ⟨l, hl⟩ := Option.isSome_iff_exists.mp hsome
  exact ⟨_, congrArg (Option.map _) hl⟩

theorem getSymbolSizeRun_eq {size : UInt32} {r : ℕ × ℕ}
    (h : getSymbolSize pp size.toNat = some r) :
    getSymbolSizeRun (.ok pp) size = .ok (some r) := by
  obtain ⟨l, hle, hlt, rfl, hfits, hfirst⟩ := getSymbolSize_eq_some h
  have hscan : scanLoop size.toNat (primeCount + 1) pp = .ok l :=
    scanLoop_eq hle hlt hfits hfirst (by omega)
  simp only [getSymbolSizeRun, Except.bind, hscan, if_neg hlt.ne, readPrime_eq hlt,
    divMod_primeAt hlt]

/-! ## The smallest prime -/

/-- The search ends at the smallest prime that is large enough, if there is one in the table. -/
theorem chosen_smallest {large : ℕ → Prop} (haccepts : ∀ p, accepts p = true ↔ large p)
    (hbound : ∀ p, large p → bound ≤ p)
    (hlarge : ∀ i < primeCount, 0 < i → bound ≤ primeAt i → large (primeAt i)) {r : ℕ × ℕ}
    (hr : Bisected (fun i => primeAt i < bound) 0 (primeCount - 1) r) {j : ℕ}
    (hj : j < primeCount) (hjlarge : large (primeAt j)) :
    large (primeAt (chosen accepts r)) ∧ primeAt (chosen accepts r) ≤ primeAt j := by
  have hnext := hr.next
  have hstop := hr.le_stop
  have hcount : primeCount = 168 := rfl
  unfold chosen
  by_cases hfirst : accepts (primeAt r.1)
  · rw [if_pos hfirst]
    have hlarge₁ := (haccepts _).mp hfirst
    -- a place at which the search has been is below the bound
    have hzero : r.1 = 0 := by
      refine hr.below_start.resolve_right fun hbelow => ?_
      exact absurd (hbound _ hlarge₁) (Nat.not_le.mpr (of_decide_eq_true hbelow))
    refine ⟨hlarge₁, primeAt_mono ?_ hj⟩
    omega
  · rw [if_neg hfirst]
    have hbehind : r.2 ≤ j := by
      by_contra hlt
      rcases hr.below_start with hzero | hbelow
      · have heq : j = r.1 := by omega
        exact hfirst ((haccepts _).mpr (heq ▸ hjlarge))
      · have hle : primeAt j ≤ primeAt r.1 := primeAt_mono (by omega) (by omega)
        have hlow := of_decide_eq_true hbelow
        have hhigh := hbound _ hjlarge
        omega
    refine ⟨?_, primeAt_mono hbehind hj⟩
    rcases hr.below_stop with hlast | habove
    · have heq : j = r.2 := by omega
      exact heq ▸ hjlarge
    · exact hlarge _ (by omega) (by omega) (Nat.not_lt.mp (of_decide_eq_false habove))

/-- What the code is to find for a chunk: where the search for the prime ends, and the prime and the
size of a symbol that the scan from there on gives. -/
structure Selects (large : ℕ → Prop) (chunkSize : ℕ) (prime : Except TableFault ℕ)
    (size : Except TableFault (Option (ℕ × ℕ))) : Prop where
  returns : ∃ i < primeCount, prime = .ok i
  smallest : ∀ i, prime = .ok i → ∀ j < primeCount, large (primeAt j) →
    large (primeAt i) ∧ primeAt i ≤ primeAt j
  fits : ∀ i, prime = .ok i → ∀ j, i ≤ j → j < primeCount → primeAt j - 1 ∣ chunkSize →
    ∃ l symbolSize, size = .ok (some (primeAt l, symbolSize)) ∧ i ≤ l ∧ l < primeCount ∧
      (primeAt l - 1) * symbolSize = chunkSize ∧ ∀ m, i ≤ m → m < l → ¬primeAt m - 1 ∣ chunkSize

theorem Selects.of_search {large : ℕ → Prop} {size : UInt32} {pp : ℕ} (hpp : pp < primeCount)
    (hsmallest : ∀ j < primeCount, large (primeAt j) →
      large (primeAt pp) ∧ primeAt pp ≤ primeAt j) :
    Selects large size.toNat (.ok pp) (getSymbolSizeRun (.ok pp) size) where
  returns := ⟨pp, hpp, rfl⟩
  smallest := by
    rintro i ⟨⟩
    exact hsmallest
  fits := by
    rintro i ⟨⟩ j hle hj hdvd
    obtain ⟨r, hr⟩ := exists_getSymbolSize hle hj hdvd
    obtain ⟨l, hlow, hlt, rfl, hfits, hfirst⟩ := getSymbolSize_eq_some hr
    refine ⟨l, _, getSymbolSizeRun_eq hr, hlow, hlt, ?_, fun m hm hml hmdvd => ?_⟩
    · exact Nat.mul_div_cancel' (Nat.dvd_of_mod_eq_zero hfits)
    · exact hfirst m hm hml (Nat.mod_eq_zero_of_dvd hmdvd)

/-- Both searches for every number of data chunks and every size of a chunk. That of EVENODD passes
by the prime 2. -/
theorem getSymbolSize_selects (old : ℕ) (k chunkSize : UInt32) :
    Selects (fun p => k.toNat + 1 ≤ p) chunkSize.toNat (RDPCoding.getPrimeRun old k)
        (getSymbolSizeRun (RDPCoding.getPrimeRun old k) chunkSize) ∧
      Selects (fun p => k.toNat ≤ p ∧ p ≠ 2) chunkSize.toNat (EvenOddCoding.getPrimeRun old k)
        (getSymbolSizeRun (EvenOddCoding.getPrimeRun old k) chunkSize) := by
  constructor
  · obtain ⟨r, hr, hrun, hlt⟩ := searchLoop_bisected old (k + 1).toNat fun p => (k + 1).toNat ≤ p
    have hadd : (k + 1).toNat = (k.toNat + 1) % 2 ^ 32 := UInt32.toNat_add k 1
    rw [RDPCoding.getPrimeRun, hrun]
    refine Selects.of_search hlt fun j hj hlarge => ?_
    have hsmall := (primeAt_table j hj).2.1
    have hbound : (k + 1).toNat = k.toNat + 1 := by omega
    rw [hbound] at hr ⊢
    refine chosen_smallest (fun p => decide_eq_true_iff) (fun p hp => hp) ?_ hr hj hlarge
    exact fun i _ _ hle => hle
  · obtain ⟨r, hr, hrun, hlt⟩ := searchLoop_bisected old k.toNat fun p => k.toNat ≤ p && p != 2
    rw [EvenOddCoding.getPrimeRun, hrun]
    refine Selects.of_search hlt fun j hj hlarge => ?_
    refine chosen_smallest (fun p => ?_) (fun p (hp : k.toNat ≤ p ∧ p ≠ 2) => hp.1) ?_ hr hj hlarge
    · simp
    · exact fun i hi hpos hle => ⟨hle, (primeAt_table i hi).2.2.1 hpos⟩

/-- For two data chunks EVENODD takes the prime 3. -/
theorem not_selects_of_two : ¬∀ old : ℕ, ∀ k chunkSize : UInt32,
    Selects (fun p => k.toNat ≤ p) chunkSize.toNat (EvenOddCoding.getPrimeRun old k)
      (getSymbolSizeRun (EvenOddCoding.getPrimeRun old k) chunkSize) := by
  intro h
  have hprime : EvenOddCoding.getPrimeRun 0 2 = .ok 1 := rfl
  obtain ⟨-, hle⟩ := (h 0 2 32).smallest 1 hprime 0 (by decide) (by decide)
  exact absurd hle (by decide)

end MemEC.Common
