import MemEC.Common.RDPRepair

/-!
# RDP keeps its promise

The cases of the decoder together: a lost chunk alone, the diagonal parity with
another chunk, and two chunks among the data and the row parity.
-/

namespace MemEC.Common

open MemEC.Lib

variable {cfg : GlobalConfig}

/-- RAID-5 restores a chunk that is lost among the data and the row parity of a code, whatever else
is lost. -/
theorem RAID5Coding.decode_row {k : ℕ} {encode : (ℕ → Memory) → Memory → ℕ → ℕ → ℕ → Memory}
    {data chunks : ℕ → Memory} (hencode : encode data 0 1 0 0 = RAID5Coding.encode cfg (k + 1) data 0)
    {bitmap : ℕ → Bool} {failed : ℕ} (hlost : lostChunks (k + 1) bitmap = [failed])
    (hthere : ∀ i < k + 1, i ≠ failed → SameChunk cfg (chunks i) (stripeChunk encode k data i))
    (hzero : SameChunk cfg (chunks failed) 0) :
    (∀ i < k + 1, SameChunk cfg ((RAID5Coding.decode cfg (k + 1) chunks bitmap).2 i)
      (stripeChunk encode k data i)) ∧
    ∀ i, i ≠ failed → (RAID5Coding.decode cfg (k + 1) chunks bitmap).2 i = chunks i := by
  have hstripe : ∀ i < k + 1, stripeChunk encode k data i =
      stripeChunk (fun d p _ _ _ => RAID5Coding.encode cfg (k + 1) d p) k data i := by
    intro i hi
    unfold stripeChunk
    split_ifs with hik
    · rfl
    · obtain rfl : i = k := by omega
      rw [Nat.sub_self]
      exact hencode
  constructor
  · intro i hi
    rw [hstripe i hi]
    apply RAID5Coding.decode_stripe data chunks bitmap _ (by rw [hlost]; exact Nat.one_pos)
      (by rw [hlost]; exact le_rfl) i hi
    intro j hj
    by_cases hjf : j = failed
    · rw [bitmap_of_mem_lost hlost (List.mem_singleton.mpr hjf), if_neg Bool.false_ne_true, hjf]
      exact hzero
    · rw [bitmap_of_notMem_lost hlost hj (List.mem_singleton.not.mpr hjf), if_pos rfl,
        ← hstripe j hj]
      exact hthere j hj hjf
  · intro i hi
    simp only [RAID5Coding.decode, hlost, List.length_singleton, lt_irrefl, if_false,
      List.headD_cons]
    exact Function.update_of_ne hi _ _

namespace RDPCoding

variable {c : RDPCoding cfg} {data chunks : ℕ → Memory}

theorem stripeChunk_row : stripeChunk c.encode c.k data c.k =
    RAID5Coding.encode cfg (c.k + 1) data 0 := stripeChunk_add 0

theorem isStripe (hk : c.k < c.p) (data : ℕ → Memory) :
    IsStripe c (stripeChunk c.encode c.k data) where
  row j hj := by
    have hdata : (∑ x ∈ Finset.range c.k, c.symbol j (stripeChunk c.encode c.k data x)) =
        ∑ x ∈ Finset.range c.k, c.symbol j (data x) :=
      Finset.sum_congr rfl fun x hx => by rw [stripeChunk_of_lt (Finset.mem_range.mp hx)]
    rw [Finset.sum_range_succ, stripeChunk_row, c.symbol_rowParity hj, hdata, Memory.add_self]
  diagonal i hi := by
    rw [stripeChunk_add, c.symbol_encode_two hk hi]
    apply Finset.sum_congr rfl
    intro x hx
    rw [Finset.mem_range] at hx
    split_ifs with hxk
    · rw [stripeChunk_of_lt hxk]
    · obtain rfl : x = c.k := by omega
      rw [stripeChunk_row]

/-- The row parity restores a lost chunk among the data and itself. -/
theorem performXOR_restores {failed : ℕ} (hfailed : failed ≤ c.k)
    (hthere : ∀ i < c.k + 1, i ≠ failed →
      SameChunk cfg (chunks i) (stripeChunk c.encode c.k data i))
    (hlost : SameChunk cfg (chunks failed) 0) :
    (∀ i < c.k + 1, SameChunk cfg (c.performXOR chunks failed i)
      (stripeChunk c.encode c.k data i)) ∧
    ∀ i, i ≠ failed → c.performXOR chunks failed i = chunks i := by
  have hone : lostChunks (c.k + 1) (fun i => i ≠ failed) = [failed] := by
    have hcount : (List.range (c.k + 1)).count failed = 1 :=
      List.count_eq_one_of_mem List.nodup_range (List.mem_range.mpr (by omega))
    have heq : lostChunks (c.k + 1) (fun i => i ≠ failed) =
        (List.range (c.k + 1)).filter fun i => decide (i = failed) := by
      apply List.filter_congr
      intro i _
      by_cases hi : i = failed <;> simp [hi]
    rw [heq, List.filter_eq, hcount, List.replicate_one]
  have hdecode : c.performXOR chunks failed =
      (RAID5Coding.decode cfg (c.k + 1) chunks fun i => i ≠ failed).2 := by
    unfold performXOR RAID5Coding.decode
    rw [if_neg (by omega), hone]
    simp only [List.length_singleton, lt_irrefl, if_false, List.headD_cons]
    rfl
  rw [hdecode]
  exact RAID5Coding.decode_row rfl hone hthere hlost

/-- The diagonal parity is encoded once more. -/
theorem encode_restores (hdata : ∀ i < c.k + 1, SameChunk cfg (chunks i)
      (stripeChunk c.encode c.k data i)) (hzero : SameChunk cfg (chunks (c.k + 1)) 0) :
    ∀ i < c.k + 2, SameChunk cfg (Function.update chunks (c.k + 1)
      (c.encode chunks (chunks (c.k + 1)) 2 0 0) i) (stripeChunk c.encode c.k data i) :=
  update_restores (c.accumulates 2 0 0) (fun h => c.encode_congr h 0 2) hdata hzero

/-- Two lost columns that are cleared are repaired. -/
theorem repair_restores (hprime : c.p.Prime) (hk : c.k < c.p) {r d : ℕ} (hpos : 0 < r)
    (hr : r ≤ c.k) (hd : d ≤ c.k) (hne : r ≠ d)
    (hthere : ∀ i < c.k + 2, i ≠ r → i ≠ d →
      SameChunk cfg (chunks i) (stripeChunk c.encode c.k data i))
    (hlost : ∀ i, i = r ∨ i = d → SameChunk cfg (chunks i) 0) (i : ℕ) (hi : i < c.k + 2) :
    SameChunk cfg (c.repair (c.p - 1) (Repair.start c.p r d) chunks i)
      (stripeChunk c.encode c.k data i) := by
  have : Fact c.p.Prime := ⟨hprime⟩
  have hp : c.p ≤ 2 ^ 24 + 1 := by
    have hsymbols := c.symbols
    have hsize := cfg.chunkSize_le
    have hpos' := cfg.le_chunkSize
    have hle : c.p - 1 ≤ cfg.chunkSize := by
      apply Nat.le_of_dvd (by omega)
      exact ⟨c.symbolSize, hsymbols.symm⟩
    omega
  have hp2 := hprime.two_le
  obtain ⟨turn, ht⟩ := exists_turnsAt hpos (p := c.p) (by omega) (by omega) hne
  have hstart : Repaired c (stripeChunk c.encode c.k data) r d (DoneAfter c.p r d turn 0)
      chunks := by
    constructor
    · intro i hi j hj hthere'
      rcases hthere' with hothers | hdone | hdone
      · exact c.sameChunk_iff_symbol.mp (hthere i hi hothers.1 hothers.2) j hj
      · rw [Nat.zero_min] at hdone
        exact absurd hdone (not_visited_zero j)
      · rw [Nat.zero_sub] at hdone
        exact absurd hdone (not_visited_zero j)
    · intro i j hij hj _
      rw [c.sameChunk_iff_symbol.mp (hlost i hij) j hj, map_zero]
  have hrun := Repaired.run hp hk (isStripe hk data) ht hr hd (c.p - 1) 0
    (Repair.start c.p r d) chunks (by omega) (fun _ => standsAt_start hp ht hpos) hstart
  apply c.sameChunk_iff_symbol.mpr
  intro j hj
  apply hrun.there i hi j hj
  right
  unfold DoneAfter
  rw [Nat.min_eq_right (by have := ht.lt; omega)]
  exact visited_or_opposite ht.ne (by have := ht.lt; omega) hj

/-- With at most two chunks lost and cleared, the stripe is restored. -/
theorem decode_stripe (hprime : c.p.Prime) (hk : c.k < c.p) (data chunks : ℕ → Memory)
    (bitmap : ℕ → Bool) (h : ∀ i < c.k + 2, SameChunk cfg (chunks i)
      (if bitmap i then stripeChunk c.encode c.k data i else 0))
    (hle : (lostChunks (c.k + 2) bitmap).length ≤ 2) :
    ((c.decode chunks bitmap).1 = true ↔ lostChunks (c.k + 2) bitmap ≠ []) ∧
      ∀ i < c.k + 2, SameChunk cfg ((c.decode chunks bitmap).2 i)
        (stripeChunk c.encode c.k data i) := by
  unfold decode
  match hlost : lostChunks (c.k + 2) bitmap with
  | [] => exact ⟨by simp, fun i hi => sameChunk_of_notMem_lost h hlost hi List.not_mem_nil⟩
  | [failed] =>
    have hlt := mem_lt_of_lostChunks hlost List.mem_cons_self
    have hzero := sameChunk_zero_of_mem_lost h hlost List.mem_cons_self
    have hothers : ∀ i < c.k + 2, i ≠ failed →
        SameChunk cfg (chunks i) (stripeChunk c.encode c.k data i) :=
      fun i hi hne => sameChunk_of_notMem_lost h hlost hi (by simpa using hne)
    by_cases hlast : failed = c.k + 1
    · subst hlast
      simp only [if_true]
      refine ⟨by simp, encode_restores (fun i hi => hothers i (by omega) (by omega)) hzero⟩
    · simp only [if_neg hlast]
      refine ⟨by simp, fun i hi => ?_⟩
      obtain ⟨hrow, hkeep⟩ := performXOR_restores (by omega)
        (fun i hi hne => hothers i (by omega) hne) hzero
      by_cases hik : i < c.k + 1
      · exact hrow i hik
      · rw [hkeep i (by omega)]
        exact hothers i hi (by omega)
  | [failed₀, failed₁] =>
    have hsorted := pairwise_of_lostChunks hlost
    have hlt : failed₀ < failed₁ := by simpa using hsorted
    have hlt₁ := mem_lt_of_lostChunks hlost (i := failed₁) (by simp)
    have hzero₀ := sameChunk_zero_of_mem_lost h hlost (i := failed₀) (by simp)
    have hzero₁ := sameChunk_zero_of_mem_lost h hlost (i := failed₁) (by simp)
    have hothers : ∀ i < c.k + 2, i ≠ failed₀ → i ≠ failed₁ →
        SameChunk cfg (chunks i) (stripeChunk c.encode c.k data i) :=
      fun i hi hne₀ hne₁ => sameChunk_of_notMem_lost h hlost hi (by simp [hne₀, hne₁])
    by_cases hlast : failed₁ = c.k + 1
    · subst hlast
      simp only [if_true]
      have hle₀ : failed₀ ≤ c.k := by omega
      obtain ⟨hrow, hkeep⟩ := performXOR_restores hle₀
        (fun i hi hne => hothers i (by omega) hne (by omega)) hzero₀
      refine ⟨by simp, encode_restores hrow ?_⟩
      rw [hkeep _ (by omega)]
      exact hzero₁
    · simp only [if_neg hlast]
      refine ⟨by simp, fun i hi => ?_⟩
      have hfill : ∀ m : Memory, SameChunk cfg (m.fill 0 cfg.chunkSize 0) 0 := by
        intro m j hj
        simp [Memory.fill, hj]
      set cleared := Function.update (Function.update chunks failed₀
        ((chunks failed₀).fill 0 cfg.chunkSize 0)) failed₁
          ((Function.update chunks failed₀ ((chunks failed₀).fill 0 cfg.chunkSize 0)
            failed₁).fill 0 cfg.chunkSize 0) with hclear
      have hclear₁ : SameChunk cfg (cleared failed₁) 0 := by
        rw [hclear, Function.update_self]
        exact hfill _
      have hclear₀ : SameChunk cfg (cleared failed₀) 0 := by
        rw [hclear, Function.update_of_ne hlt.ne, Function.update_self]
        exact hfill _
      have hkept : ∀ i < c.k + 2, i ≠ failed₀ → i ≠ failed₁ →
          SameChunk cfg (cleared i) (stripeChunk c.encode c.k data i) := by
        intro i hi hne₀ hne₁
        rw [hclear, Function.update_of_ne hne₁, Function.update_of_ne hne₀]
        exact hothers i hi hne₀ hne₁
      split_ifs with h0
      · apply repair_restores hprime hk (by omega) (by omega) (by omega) hlt.ne' _ _ i hi
        · exact fun i hi hne₁ hne₀ => hkept i hi hne₀ hne₁
        · rintro i (rfl | rfl)
          · exact hclear₁
          · exact hclear₀
      · apply repair_restores hprime hk (by omega) (by omega) (by omega) hlt.ne _ _ i hi
        · exact hkept
        · rintro i (rfl | rfl)
          · exact hclear₀
          · exact hclear₁
  | _ :: _ :: _ :: _ =>
    rw [hlost] at hle
    simp at hle

/-- RDP restores at most two lost chunks, for every number of data chunks and every chunk size with
which the code starts. -/
theorem decode_restores_rdp {k : ℕ} {hk : k ≤ 254} (hc : construct cfg k hk = some c)
    (data chunks : ℕ → Memory) (bitmap : ℕ → Bool)
    (h : ∀ i < k + 2, SameChunk cfg (chunks i)
      (if bitmap i then stripeChunk c.encode k data i else 0))
    (hle : (lostChunks (k + 2) bitmap).length ≤ 2) :
    ((c.decode chunks bitmap).1 = true ↔ lostChunks (k + 2) bitmap ≠ []) ∧
      ∀ i < k + 2, SameChunk cfg ((c.decode chunks bitmap).2 i)
        (stripeChunk c.encode k data i) := by
  obtain ⟨rfl, hprime, hkp⟩ := construct_spec hc
  exact decode_stripe hprime hkp data chunks bitmap h hle

/-- The smallest chunks, two data chunks, and both of them lost. -/
theorem decode_restores_rowAndData : ∃ c, construct .smallest 2 (by decide) = some c ∧
    ∀ i < 4, SameChunk .smallest ((c.decode
        (fun i => if 2 ≤ i then stripeChunk c.encode 2 (fun i => .place i [7, 9]) i else 0)
        (fun i => 2 ≤ i)).2 i)
      (stripeChunk c.encode 2 (fun i => .place i [7, 9]) i) := by
  have hsome : (construct .smallest 2 (by decide)).isSome = true := by decide +kernel
  obtain ⟨c, hc⟩ := Option.isSome_iff_exists.mp hsome
  refine ⟨c, hc, (decode_restores_rdp hc (fun i => .place i [7, 9]) _ (fun i => 2 ≤ i) ?_ ?_).2⟩
  · intro i _
    simp only [decide_eq_true_eq]
    exact SameChunk.refl _
  · decide

end RDPCoding

end MemEC.Common
