import Mathlib.Data.Nat.Prime.Defs
import MemEC.Common.Coding
import MemEC.Lib.Bisection

/-!
# The prime of a code

RDP and EVENODD cut a chunk into one symbol less than a prime. The prime is
taken from a table: the first one that is large enough for the number of
chunks, or the next one behind it for which the symbols fill the chunk. When
there is none in the table, the code does not start.
-/

namespace MemEC.Common

open MemEC.Lib

/-- `RDPCoding::primeList`. -/
def primeList : List ℕ :=
  [2, 3, 5, 7, 11, 13, 17, 19, 23, 29,
    31, 37, 41, 43, 47, 53, 59, 61, 67, 71,
    73, 79, 83, 89, 97, 101, 103, 107, 109, 113,
    127, 131, 137, 139, 149, 151, 157, 163, 167, 173,
    179, 181, 191, 193, 197, 199, 211, 223, 227, 229,
    233, 239, 241, 251, 257, 263, 269, 271, 277, 281,
    283, 293, 307, 311, 313, 317, 331, 337, 347, 349,
    353, 359, 367, 373, 379, 383, 389, 397, 401, 409,
    419, 421, 431, 433, 439, 443, 449, 457, 461, 463,
    467, 479, 487, 491, 499, 503, 509, 521, 523, 541,
    547, 557, 563, 569, 571, 577, 587, 593, 599, 601,
    607, 613, 617, 619, 631, 641, 643, 647, 653, 659,
    661, 673, 677, 683, 691, 701, 709, 719, 727, 733,
    739, 743, 751, 757, 761, 769, 773, 787, 797, 809,
    811, 821, 823, 827, 829, 839, 853, 857, 859, 863,
    877, 881, 883, 887, 907, 911, 919, 929, 937, 941,
    947, 953, 967, 971, 977, 983, 991, 997]

def primeCount : ℕ := 168

/-- `primeList[ i ]`. -/
def primeAt (i : ℕ) : ℕ := primeList.getD i 0

/-- `RDPCoding::getPrime`: the place of the prime in the table. -/
def RDPCoding.getPrime (k : ℕ) : ℕ :=
  let r := bisect (fun i => primeAt i < k + 1) primeCount 0 (primeCount - 1)
  if k + 1 ≤ primeAt r.1 then r.1 else r.2

/-- `EvenOddCoding::getPrime`. -/
def EvenOddCoding.getPrime (k : ℕ) : ℕ :=
  let r := bisect (fun i => primeAt i < k) primeCount 0 (primeCount - 1)
  if k ≤ primeAt r.1 ∧ primeAt r.1 ≠ 2 then r.1 else r.2

/-- `getSymbolSize` from the prime at `pp` on: the prime and the size of a symbol. Without a prime
in the table for which the symbols fill the chunk, the process exits. -/
def getSymbolSize (pp chunkSize : ℕ) : Option (ℕ × ℕ) :=
  ((List.range' pp (primeCount - pp)).find? fun i => chunkSize % (primeAt i - 1) = 0).map fun i =>
    (primeAt i, chunkSize / (primeAt i - 1))

theorem prime_of_lt {q : ℕ} (hlow : 2 ≤ q) (hhigh : q < 32 * 32)
    (h : ∀ m < 32, 2 ≤ m → m < q → ¬ m ∣ q) : q.Prime := by
  apply Nat.prime_def_le_sqrt.mpr
  constructor
  · exact hlow
  · intro m hm hsqrt
    have hle : m * m ≤ q := Nat.le_sqrt.mp hsqrt
    have hlt : m < 32 := by nlinarith
    have hltq : m < q := by nlinarith
    exact h m hlt hm hltq

theorem primeAt_table : ∀ i < primeCount, 2 ≤ primeAt i ∧ primeAt i < 32 * 32 ∧
    (0 < i → primeAt i ≠ 2) ∧ ∀ m < 32, 2 ≤ m → m < primeAt i → ¬ m ∣ primeAt i := by
  decide +kernel

theorem prime_primeAt {i : ℕ} (hi : i < primeCount) : (primeAt i).Prime := by
  obtain ⟨hlow, hhigh, -, h⟩ := primeAt_table i hi
  exact prime_of_lt hlow hhigh h

theorem last_primeAt : primeAt (primeCount - 1) = 997 := by decide +kernel

theorem primeAt_succ : ∀ i < primeCount - 1, primeAt i ≤ primeAt (i + 1) := by
  decide +kernel

theorem primeAt_mono {i j : ℕ} (hij : j ≤ i) (hi : i < primeCount) :
    primeAt j ≤ primeAt i := by
  induction i, hij using Nat.le_induction with
  | base => exact le_rfl
  | succ i _ ih => exact (ih (by omega)).trans (primeAt_succ i (by omega))

variable {k pp chunkSize p symbolSize : ℕ}

/-- The search ends at a prime that is not below the bound, as the last one is not. -/
theorem le_primeAt_bisect {x : ℕ} (hx : x ≤ 255) :
    x ≤ primeAt (bisect (fun i => primeAt i < x) primeCount 0 (primeCount - 1)).2 := by
  have hlast := last_primeAt
  have h : Bisected (fun i => primeAt i < x) 0 (primeCount - 1)
      (bisect _ primeCount 0 (primeCount - 1)) := bisected (by decide) (by decide)
  rcases h.below_stop with heq | habove
  · rw [heq]
    omega
  · exact Nat.not_lt.mp (of_decide_eq_false habove)

theorem RDPCoding.getPrime_spec (hk : k ≤ 254) : k + 1 ≤ primeAt (getPrime k) := by
  unfold getPrime
  dsimp only
  split_ifs with hfirst
  · exact hfirst
  · exact le_primeAt_bisect (Nat.succ_le_succ hk)

theorem EvenOddCoding.getPrime_spec (hk : k ≤ 254) :
    k ≤ primeAt (getPrime k) ∧ 0 < getPrime k := by
  have h : Bisected (fun i => primeAt i < k) 0 (primeCount - 1)
      (bisect _ primeCount 0 (primeCount - 1)) := bisected (by decide) (by decide)
  have hnext := h.next
  unfold getPrime
  dsimp only
  split_ifs with hfirst
  · refine ⟨hfirst.1, Nat.pos_of_ne_zero fun h0 => hfirst.2 ?_⟩
    rw [h0]
    rfl
  · exact ⟨le_primeAt_bisect (hk.trans (by decide)), by omega⟩

theorem getSymbolSize_spec (h : getSymbolSize pp chunkSize = some (p, symbolSize)) :
    p.Prime ∧ primeAt pp ≤ p ∧ (0 < pp → p ≠ 2) ∧ (p - 1) * symbolSize = chunkSize := by
  unfold getSymbolSize at h
  obtain ⟨i, hi, heq⟩ := Option.map_eq_some_iff.mp h
  obtain ⟨rfl, rfl⟩ := Prod.mk.inj heq
  have hmem := List.mem_range'_1.mp (List.mem_of_find?_eq_some hi)
  have hmod := List.find?_some hi
  rw [decide_eq_true_eq] at hmod
  have hlt : i < primeCount := by omega
  refine ⟨prime_primeAt hlt, primeAt_mono hmem.1 hlt, fun hpos => ?_, ?_⟩
  · exact (primeAt_table i hlt).2.2.1 (by omega)
  · exact Nat.mul_div_cancel' (Nat.dvd_of_mod_eq_zero hmod)

variable (cfg : GlobalConfig)

/-- The fields of the code for a prime of the table. -/
def RDPCoding.ofPrime (k : ℕ) (hk : k ≤ 254) (pp : ℕ) : Option (RDPCoding cfg) :=
  match h : getSymbolSize pp cfg.chunkSize with
  | none => none
  | some (p, symbolSize) => some ⟨k, p, symbolSize, (getSymbolSize_spec h).2.2.2, hk⟩

/-- The constructor of `RDPCoding`. -/
def RDPCoding.construct (k : ℕ) (hk : k ≤ 254) : Option (RDPCoding cfg) :=
  RDPCoding.ofPrime cfg k hk (RDPCoding.getPrime k)

/-- The constructor of `EvenOddCoding`, which runs that of `RDPCoding` first. -/
def EvenOddCoding.construct (k : ℕ) (hk : k ≤ 254) : Option (RDPCoding cfg) :=
  match RDPCoding.construct cfg k hk with
  | none => none
  | some _ => RDPCoding.ofPrime cfg k hk (EvenOddCoding.getPrime k)

variable {cfg} {c : RDPCoding cfg} {hk : k ≤ 254}

theorem RDPCoding.ofPrime_spec (h : RDPCoding.ofPrime cfg k hk pp = some c) :
    c.k = k ∧ c.p.Prime ∧ primeAt pp ≤ c.p ∧ (0 < pp → c.p ≠ 2) := by
  unfold RDPCoding.ofPrime at h
  split at h
  · cases h
  · next p symbolSize hsize =>
    obtain rfl := Option.some.inj h
    obtain ⟨hp, hle, hne, -⟩ := getSymbolSize_spec hsize
    exact ⟨rfl, hp, hle, hne⟩

/-- The columns of the code have different places modulo the prime. -/
theorem RDPCoding.construct_spec (h : RDPCoding.construct cfg k hk = some c) :
    c.k = k ∧ c.p.Prime ∧ k + 1 ≤ c.p := by
  obtain ⟨rfl, hp, hle, -⟩ := ofPrime_spec h
  exact ⟨rfl, hp, (getPrime_spec hk).trans hle⟩

theorem EvenOddCoding.construct_spec (h : EvenOddCoding.construct cfg k hk = some c) :
    c.k = k ∧ c.p.Prime ∧ k ≤ c.p ∧ c.p ≠ 2 := by
  unfold EvenOddCoding.construct at h
  cases hbase : RDPCoding.construct cfg k hk with
  | none =>
    rw [hbase] at h
    cases h
  | some c₀ =>
    rw [hbase] at h
    obtain ⟨rfl, hp, hle, hne⟩ := RDPCoding.ofPrime_spec h
    obtain ⟨hkp, hpos⟩ := getPrime_spec hk
    exact ⟨rfl, hp, hkp.trans hle, hne hpos⟩

end MemEC.Common
