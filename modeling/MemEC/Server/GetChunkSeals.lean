import MemEC.Lib.Loops
import MemEC.Server.GetChunk

/-!
# The seal indicators of a stripe

What the loops over the seal indicators compute when every parity chunk that
is there has brought its indicators along. `forceSeal` then drops the data
chunks that the parity chunks do not have, as long as the parity chunks agree.
-/

namespace MemEC.Server

open MemEC.Lib MemEC.Common

variable {k m : ℕ}

namespace StripeBuffer

/-- Data chunk `i` is sealed in the `j`-th parity chunk. -/
def sealAt (b : StripeBuffer) (j i : ℕ) : Bool := ((b.sealIndicators j).getD []).getD i false

/-- The `j`-th parity chunk came with an indicator for each data chunk. -/
def HasSeals (b : StripeBuffer) (k j : ℕ) : Prop :=
  ∃ row, b.sealIndicators j = some row ∧ row.length = k

theorem HasSeals.readSeal {b : StripeBuffer} {i j : ℕ} (h : b.HasSeals k j) (hi : i < k) :
    readSeal (b.sealIndicators j) i = .ok (b.sealAt j i) := by
  obtain ⟨row, hrow, hlen⟩ := h
  simp [Server.readSeal, sealAt, hrow, hlen, hi]

@[simp] theorem setChunk_sealIndicators (b : StripeBuffer) (i : ℕ) (chunk : ChunkRef) :
    (b.setChunk i chunk).sealIndicators = b.sealIndicators := rfl
@[simp] theorem setChunk_trueSeal (b : StripeBuffer) (i : ℕ) (chunk : ChunkRef) :
    (b.setChunk i chunk).trueSeal = b.trueSeal := rfl
@[simp] theorem setTrueSeal_chunks (b : StripeBuffer) (i : ℕ) (isSealed : Bool) :
    (b.setTrueSeal i isSealed).chunks = b.chunks := rfl
@[simp] theorem setTrueSeal_sealIndicators (b : StripeBuffer) (i : ℕ) (isSealed : Bool) :
    (b.setTrueSeal i isSealed).sealIndicators = b.sealIndicators := rfl
@[simp] theorem setSealIndicator_chunks (b : StripeBuffer) (j : ℕ) (row : Option (List Bool)) :
    (b.setSealIndicator j row).chunks = b.chunks := rfl
@[simp] theorem setSealIndicator_trueSeal (b : StripeBuffer) (j : ℕ) (row : Option (List Bool)) :
    (b.setSealIndicator j row).trueSeal = b.trueSeal := rfl

theorem hasParity_of_holdsParity {b : StripeBuffer} {j : ℕ} (h : b.holdsParity k j = true) :
    b.hasParity k j = true := by
  unfold holdsParity at h
  unfold hasParity
  cases hc : b.chunks (k + j) with
  | none => simp [hc] at h
  | some chunk => rfl

end StripeBuffer

open StripeBuffer

variable {b : StripeBuffer}

/-- Row `parityChunkCount + 1` holds what some parity chunk has sealed. -/
theorem sealedAtParities_spec (h : ∀ j < m, b.holdsParity k j = true → b.HasSeals k j) :
    ∃ known, sealedAtParities k m b = .ok known ∧ ∀ i < k,
      (known i = true ↔ ∃ j < m, b.holdsParity k j = true ∧ b.sealAt j i = true) := by
  refine foldlM_range (P := fun n (known : ℕ → Bool) => ∀ i < k,
    (known i = true ↔ ∃ j < n, b.holdsParity k j = true ∧ b.sealAt j i = true))
    (fun i _ => by simp) fun j hj known hknown => ?_
  have hsucc : ∀ i, (∃ j' < j + 1, b.holdsParity k j' = true ∧ b.sealAt j' i = true) ↔
      (∃ j' < j, b.holdsParity k j' = true ∧ b.sealAt j' i = true) ∨
        (b.holdsParity k j = true ∧ b.sealAt j i = true) := fun i => by
    simp only [Nat.lt_succ_iff_lt_or_eq, or_and_right, exists_or, exists_eq_left]
  cases hp : b.holdsParity k j with
  | false =>
    refine ⟨known, by simp, fun i hi => ?_⟩
    rw [hsucc, hknown i hi, hp]
    simp
  | true =>
    -- Before pass `n` of the inner loop the first `n` entries are up to date.
    obtain ⟨known', hrun, hknown'⟩ := foldlM_range (f := fun known i => do
        let isSealed ← readSeal (b.sealIndicators j) i
        return Function.update known i (known i || isSealed))
      (P := fun n (known' : ℕ → Bool) => ∀ i,
        known' i = if i < n then known i || b.sealAt j i else known i)
      (n := k) (s := known) (fun i => by simp) (by
        intro n hn known' hP
        refine ⟨Function.update known' n (known' n || b.sealAt j n), ?_, fun i => ?_⟩
        · rw [(h j hj hp).readSeal hn, except_ok_bind]
          rfl
        · by_cases hin : i = n
          · subst hin
            simp [hP]
          · rw [Function.update_of_ne hin, hP]
            have hlt : i < n + 1 ↔ i < n := by omega
            simp only [hlt])
    refine ⟨known', by simpa [hp] using hrun, fun i hi => ?_⟩
    rw [hknown' i, if_pos hi, hsucc, Bool.or_eq_true, hknown i hi]
    simp [hp]

/-- The check succeeds when the parity chunks that hold data have sealed what the data servers
have. -/
theorem sealsAgree_spec (h : ∀ j < m, b.holdsParity k j = true → b.HasSeals k j) :
    ∃ valid, sealsAgree k m b = .ok valid ∧ (valid = true ↔
      ∀ i < k, ∀ j < m, b.holdsParity k j = true → b.sealAt j i = b.trueSeal i) := by
  have hinner : ∀ i ∈ List.range k, ((List.range m).allM fun j =>
      if b.holdsParity k j then do
        let isSealed ← readSeal (b.sealIndicators j) i
        return isSealed == b.trueSeal i
      else .ok true) =
      Except.ok ((List.range m).all fun j => !b.holdsParity k j || b.sealAt j i == b.trueSeal i) := by
    intro i hi
    refine allM_ok fun j hj => ?_
    cases hp : b.holdsParity k j with
    | false => simp
    | true =>
      have hread := (h j (List.mem_range.mp hj) hp).readSeal (List.mem_range.mp hi)
      simp only [if_true, hread]
      simp
  refine ⟨_, allM_ok hinner, ?_⟩
  simp only [List.all_eq_true, List.mem_range, Bool.or_eq_true, Bool.not_eq_true', beq_iff_eq]
  refine forall₂_congr fun i _ => forall₂_congr fun j _ => ?_
  cases b.holdsParity k j <;> simp

/-! ## `Coding::forceSeal` on parity chunks that agree -/

/-- The parity chunks that are there have sealed the data chunks in `sealed`. -/
def ParitiesSeal (k m : ℕ) (b : StripeBuffer) (sealed : ℕ → Bool) : Prop :=
  ∀ j < m, b.hasParity k j = true → b.HasSeals k j ∧ ∀ i < k, b.sealAt j i = sealed i

variable {sealed : ℕ → Bool}

/-- With one parity chunk or more, all or none of them have sealed data chunk `i`. -/
theorem countSeals_spec {i : ℕ} (h : ParitiesSeal k m b sealed) (hi : i < k)
    (hsome : ∃ j < m, b.hasParity k j = true) :
    ∃ total, countSeals k m b i =
      .ok (total, if sealed i then total else 0, some (sealed i)) := by
  obtain ⟨⟨total, count, indicator⟩, hrun, hcount, hindicator, hpos⟩ :=
    foldlM_range (f := fun acc j =>
        if b.hasParity k j then do
          let isSealed ← readSeal (b.sealIndicators j) i
          return (acc.1 + 1, if isSealed then acc.2.1 + 1 else acc.2.1, some isSealed)
        else .ok acc)
      (P := fun n (acc : ℕ × ℕ × Option Bool) => acc.2.1 = (if sealed i then acc.1 else 0) ∧
        (acc.2.2 = if acc.1 = 0 then none else some (sealed i)) ∧
        ((∃ j < n, b.hasParity k j = true) → 0 < acc.1))
      (n := m) (s := (0, 0, none)) (by simp) (by
        rintro j hj ⟨total, count, indicator⟩ ⟨hcount, hindicator, hpos⟩
        cases hp : b.hasParity k j with
        | false =>
          refine ⟨(total, count, indicator), by simp, hcount, hindicator, ?_⟩
          rintro ⟨j', hj', hp'⟩
          rcases Nat.lt_succ_iff_lt_or_eq.mp hj' with hlt | rfl
          · exact hpos ⟨j', hlt, hp'⟩
          · rw [hp] at hp'
            contradiction
        | true =>
          obtain ⟨hseals, hsame⟩ := h j hj hp
          refine ⟨_, by rw [if_pos rfl, hseals.readSeal hi, except_ok_bind]; rfl, ?_, ?_, ?_⟩
          · simp only at hcount
            simp only [hsame i hi, hcount]
            split_ifs <;> rfl
          · simp [hsame i hi]
          · intro _
            exact Nat.succ_pos _)
  have htotal : total ≠ 0 := (hpos hsome).ne'
  refine ⟨total, ?_⟩
  simp only [if_neg htotal] at hindicator
  simp only at hcount
  rw [← hcount, ← hindicator]
  exact hrun

/-- A data chunk that no parity chunk has is dropped, all the others stay. -/
theorem followParities_spec {i : ℕ} (h : ParitiesSeal k m b sealed) (hi : i < k)
    (hsome : ∃ j < m, b.hasParity k j = true) (hle : sealed i = true → b.trueSeal i = true) :
    followParities k m b i = .ok (if sealed i = b.trueSeal i then b
      else (b.setChunk i .zeros).setTrueSeal i false) := by
  obtain ⟨total, hcount⟩ := countSeals_spec h hi hsome
  have hall : (if sealed i then total else 0) = 0 ∨ (if sealed i then total else 0) = total := by
    split_ifs
    · exact Or.inr rfl
    · exact Or.inl rfl
  unfold followParities
  rw [hcount, except_ok_bind]
  by_cases hsame : sealed i = b.trueSeal i
  · rw [if_pos hsame]
    exact if_neg fun hcond => hcond.2 (congrArg some hsame)
  · have htrue : b.trueSeal i = true := by
      cases hs : sealed i with
      | true => exact hle hs
      | false => simpa [hs] using hsame
    rw [if_neg hsame]
    exact (if_pos ⟨hall, fun heq => hsame (Option.some.inj heq)⟩).trans (if_pos htrue)

/-- The buffer after the first loop: the data chunks that no parity chunk has are dropped. -/
def dropUnsealed (k : ℕ) (b : StripeBuffer) (sealed : ℕ → Bool) : StripeBuffer :=
  { b with
    chunks := fun i => if i < k ∧ sealed i ≠ b.trueSeal i then some .zeros else b.chunks i
    trueSeal := fun i => if i < k then sealed i else b.trueSeal i }

/-- Parity chunks that agree need no other chunk sealed into them. -/
theorem forceSeal_spec {cfg : GlobalConfig} {encode : (ℕ → Memory) → Memory → ℕ → ℕ → ℕ → Memory}
    {zeros : Memory} (h : ParitiesSeal k m b sealed) (hsome : ∃ j < m, b.hasParity k j = true)
    (hle : ∀ i < k, sealed i = true → b.trueSeal i = true) :
    forceSeal k cfg encode m b zeros = .ok (dropUnsealed k b sealed, zeros) := by
  -- Before pass `n` the first `n` data chunks have been dropped or kept.
  obtain ⟨b', hrun, hchunks, hseal, hind⟩ := foldlM_range (f := followParities k m)
    (P := fun n (b' : StripeBuffer) =>
      (∀ i, b'.chunks i = if i < n ∧ sealed i ≠ b.trueSeal i then some .zeros else b.chunks i) ∧
      (∀ i, b'.trueSeal i = if i < n then sealed i else b.trueSeal i) ∧
      b' = { b with chunks := b'.chunks, trueSeal := b'.trueSeal })
    (n := k) (s := b) (by simp) (by
      rintro n hn b' ⟨hchunks, hseal, hind⟩
      have hparity : ∀ j, b'.hasParity k j = b.hasParity k j := by
        intro j
        have hge : ¬ (k + j < n ∧ sealed (k + j) ≠ b.trueSeal (k + j)) := by omega
        unfold hasParity
        rw [hchunks, if_neg hge]
      have hseals : b'.sealIndicators = b.sealIndicators := by rw [hind]
      have h' : ParitiesSeal k m b' sealed := by
        intro j hj hp
        unfold HasSeals sealAt
        rw [hseals]
        exact h j hj (hparity j ▸ hp)
      have hsome' : ∃ j < m, b'.hasParity k j = true := by
        simpa only [hparity] using hsome
      have hn' : b'.trueSeal n = b.trueSeal n := by simp [hseal]
      refine ⟨_, followParities_spec h' hn hsome' (by rw [hn']; exact hle n hn), ?_⟩
      rw [hn']
      by_cases hsame : sealed n = b.trueSeal n
      · rw [if_pos hsame]
        refine ⟨fun i => ?_, fun i => ?_, hind⟩
        · rw [hchunks]
          by_cases hin : i = n
          · simp [hin, hsame]
          · have hlt : i < n + 1 ↔ i < n := by omega
            simp only [hlt]
        · rw [hseal]
          by_cases hin : i = n
          · simp [hin, hsame]
          · have hlt : i < n + 1 ↔ i < n := by omega
            simp only [hlt]
      · rw [if_neg hsame]
        have hfalse : sealed n = false := by
          cases hs : sealed n with
          | false => rfl
          | true => exact absurd ((hle n hn hs).symm ▸ hs) hsame
        refine ⟨fun i => ?_, fun i => ?_, ?_⟩
        · by_cases hin : i = n
          · subst hin
            simp [setChunk, setTrueSeal, hsame]
          · have hlt : i < n + 1 ↔ i < n := by omega
            simp [setChunk, setTrueSeal, hin, hlt, hchunks]
        · by_cases hin : i = n
          · subst hin
            simp [setChunk, setTrueSeal, hfalse]
          · have hlt : i < n + 1 ↔ i < n := by omega
            simp [setChunk, setTrueSeal, hin, hlt, hseal]
        · rw [hind]
          rfl)
  have hb' : b' = dropUnsealed k b sealed := by
    rw [hind]
    unfold dropUnsealed
    congr 1
    · exact funext hchunks
    · exact funext hseal
  unfold forceSeal
  rw [hrun, except_ok_bind]
  -- No parity chunk differs from what is sealed now, so the second loop changes nothing.
  subst hb'
  refine foldlM_range_same fun j hj => ?_
  cases hp : (dropUnsealed k b sealed).hasParity k j with
  | false => rfl
  | true =>
    have hparity : b.hasParity k j = true := by
      have hge : ¬ (k + j < k ∧ sealed (k + j) ≠ b.trueSeal (k + j)) := by omega
      unfold hasParity at hp ⊢
      rwa [hchunks, if_neg hge] at hp
    refine foldlM_range_same fun i hi => ?_
    have hread : readSeal ((dropUnsealed k b sealed).sealIndicators j) i = .ok (sealed i) := by
      rw [← (h j hj hparity).2 i hi]
      exact (h j hj hparity).1.readSeal hi
    unfold sealIntoParity
    rw [hread, except_ok_bind, if_pos (by simp [hseal, hi])]
    rfl

end MemEC.Server
