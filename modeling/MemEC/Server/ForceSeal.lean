import MemEC.Common.ErasureCode
import MemEC.Common.Mirroring
import MemEC.Server.GetChunkRun

/-!
# Sealing data chunks into the parity chunks that miss them

`Coding::forceSeal` makes the surviving parity chunks of a stripe agree on which
data chunks are sealed. A data chunk that no parity chunk has is dropped, and one
that some of them have is encoded into the others. It encodes with the index of
the parity chunk and the range of the first data chunk, where all other callers
take the index plus one and the range of the chunk that they encode.
-/

namespace MemEC.Server

open MemEC.Lib MemEC.Common

variable {k m : ℕ}

namespace StripeBuffer

/-- Some surviving parity chunk has data chunk `j` sealed. -/
def someSeal (k m : ℕ) (b : StripeBuffer) (j : ℕ) : Bool :=
  (List.range m).any fun i => b.hasParity k i && b.sealAt i j

/-- Every surviving parity chunk has data chunk `j` sealed. -/
def allSeal (k m : ℕ) (b : StripeBuffer) (j : ℕ) : Bool :=
  (List.range m).all fun i => !b.hasParity k i || b.sealAt i j

variable {b : StripeBuffer} {i j : ℕ}

theorem someSeal_iff : b.someSeal k m j = true ↔
    ∃ i < m, b.hasParity k i = true ∧ b.sealAt i j = true := by
  simp [someSeal]

theorem allSeal_iff : b.allSeal k m j = true ↔
    ∀ i < m, b.hasParity k i = true → b.sealAt i j = true := by
  simp only [allSeal, List.all_eq_true, List.mem_range, Bool.or_eq_true, Bool.not_eq_true']
  refine forall₂_congr fun i _ => ?_
  cases b.hasParity k i <;> simp

/-- There is a parity chunk, and each one came with its seal indicators. -/
structure Survives (b : StripeBuffer) (k m : ℕ) : Prop where
  some : ∃ i < m, b.hasParity k i = true
  seals : ∀ i < m, b.hasParity k i = true → b.HasSeals k i

theorem Survives.someSeal_of_all (h : b.Survives k m) (hall : b.allSeal k m j = true) :
    b.someSeal k m j = true := by
  obtain ⟨i, hi, hp⟩ := h.some
  exact someSeal_iff.mpr ⟨i, hi, hp, allSeal_iff.mp hall i hi hp⟩

end StripeBuffer

open StripeBuffer

variable {b : StripeBuffer} {i j : ℕ}

/-! ## The first loop -/

/-- The counters tell whether no or all parity chunks have sealed a data chunk, and the last
indicator is that of one of them. -/
theorem countSeals_eq (h : b.Survives k m) (hj : j < k) : ∃ total count indicator,
    countSeals k m b j = .ok (total, count, indicator) ∧
      (count = 0 ↔ b.someSeal k m j = false) ∧ (count = total ↔ b.allSeal k m j = true) ∧
      ∃ i < m, b.hasParity k i = true ∧ indicator = some (b.sealAt i j) := by
  obtain ⟨⟨total, count, indicator⟩, hrun, hzero, hall, hle, hlast⟩ :=
    foldlM_range (f := fun acc i =>
        if b.hasParity k i then do
          let isSealed ← readSeal (b.sealIndicators i) j
          return (acc.1 + 1, if isSealed then acc.2.1 + 1 else acc.2.1, some isSealed)
        else .ok acc)
      (P := fun n (acc : ℕ × ℕ × Option Bool) =>
        (acc.2.1 = 0 ↔ b.someSeal k n j = false) ∧ (acc.2.1 = acc.1 ↔ b.allSeal k n j = true) ∧
        acc.2.1 ≤ acc.1 ∧ ((∃ i < n, b.hasParity k i = true) →
          ∃ i < n, b.hasParity k i = true ∧ acc.2.2 = some (b.sealAt i j)))
      (n := m) (s := (0, 0, none)) (by simp [someSeal, allSeal]) (by
        rintro i hi ⟨total, count, indicator⟩ ⟨hzero, hall, hle, hlast⟩
        have hsome : b.someSeal k (i + 1) j =
            (b.someSeal k i j || (b.hasParity k i && b.sealAt i j)) := by
          simp [someSeal, List.range_succ]
        have heach : b.allSeal k (i + 1) j =
            (b.allSeal k i j && (!b.hasParity k i || b.sealAt i j)) := by
          simp [allSeal, List.range_succ]
        simp only at hzero hall hle hlast
        cases hp : b.hasParity k i with
        | false =>
          refine ⟨(total, count, indicator), rfl, ?_, ?_, hle, ?_⟩
          · rw [hsome, hp, Bool.false_and, Bool.or_false]
            exact hzero
          · rw [heach, hp, Bool.not_false, Bool.true_or, Bool.and_true]
            exact hall
          · rintro ⟨i', hi', hp'⟩
            have hlt : i' < i := by
              rcases Nat.lt_succ_iff_lt_or_eq.mp hi' with hlt | rfl
              · exact hlt
              · rw [hp] at hp'
                contradiction
            obtain ⟨i₀, hi₀, hrest⟩ := hlast ⟨i', hlt, hp'⟩
            exact ⟨i₀, by omega, hrest⟩
        | true =>
          rw [hp, Bool.true_and] at hsome
          rw [hp, Bool.not_true, Bool.false_or] at heach
          refine ⟨_, by rw [if_pos rfl, (h.seals i hi hp).readSeal hj, except_ok_bind]; rfl, ?_⟩
          have hindicator : (∃ i' < i + 1, b.hasParity k i' = true) →
              ∃ i' < i + 1, b.hasParity k i' = true ∧ some (b.sealAt i j) = some (b.sealAt i' j) :=
            fun _ => ⟨i, i.lt_succ_self, hp, rfl⟩
          cases hseal : b.sealAt i j with
          | false =>
            rw [hseal, Bool.or_false] at hsome
            rw [hseal, Bool.and_false] at heach
            rw [hseal] at hindicator
            refine ⟨?_, ?_, ?_, hindicator⟩
            · rw [hsome]
              exact hzero
            · rw [heach]
              exact iff_of_false (by simp only [Bool.false_eq_true, if_false]; omega)
                Bool.false_ne_true
            · exact hle.trans (Nat.le_succ total)
          | true =>
            rw [hseal, Bool.or_true] at hsome
            rw [hseal, Bool.and_true] at heach
            rw [hseal] at hindicator
            refine ⟨?_, ?_, ?_, hindicator⟩
            · rw [hsome]
              exact iff_of_false (Nat.succ_ne_zero count) (by decide)
            · rw [heach, ← hall]
              exact Nat.succ_inj
            · exact Nat.succ_le_succ hle)
  exact ⟨total, count, indicator, hrun, hzero, hall, hlast h.some⟩

/-- The buffer after the first loop has gone over the first `n` data chunks: those that no parity
chunk has are dropped. -/
def dropped (k m n : ℕ) (b : StripeBuffer) : StripeBuffer :=
  { b with
    chunks := fun j =>
      if j < n ∧ b.someSeal k m j = false ∧ b.trueSeal j = true then some .zeros else b.chunks j
    trueSeal := fun j => if j < n then b.trueSeal j && b.someSeal k m j else b.trueSeal j }

/-- What a round of the first loop does. -/
theorem followParities_eq (h : b.Survives k m) (hj : j < k) : followParities k m b j =
    if b.allSeal k m j = true ∧ b.trueSeal j = false then .error .assertion
    else .ok (if b.someSeal k m j = false ∧ b.trueSeal j = true then
      (b.setChunk j .zeros).setTrueSeal j false else b) := by
  obtain ⟨total, count, indicator, hcount, hzero, hall, i, hi, hp, rfl⟩ := countSeals_eq h hj
  unfold followParities
  rw [hcount, except_ok_bind]
  simp only [hzero, hall, ne_eq, Option.some.injEq]
  have hsome : b.allSeal k m j = true → b.someSeal k m j = true := h.someSeal_of_all
  have hmem : b.someSeal k m j = false → b.sealAt i j = false := by
    intro hnone
    rw [← Bool.not_eq_true] at hnone ⊢
    exact fun hseal => hnone (someSeal_iff.mpr ⟨i, hi, hp, hseal⟩)
  have hmem' : b.allSeal k m j = true → b.sealAt i j = true :=
    fun heach => allSeal_iff.mp heach i hi hp
  cases hs : b.someSeal k m j <;> cases ha : b.allSeal k m j <;> cases ht : b.trueSeal j <;>
    simp_all [throw, throwThe, MonadExceptOf.throw, pure, Except.pure]

theorem hasParity_dropped {n : ℕ} (hn : n ≤ k) (i : ℕ) :
    (dropped k m n b).hasParity k i = b.hasParity k i := by
  have hge : ¬(k + i < n ∧ b.someSeal k m (k + i) = false ∧ b.trueSeal (k + i) = true) := by omega
  unfold hasParity dropped
  dsimp only
  rw [if_neg hge]

theorem sealAt_dropped (n i j : ℕ) : (dropped k m n b).sealAt i j = b.sealAt i j := rfl

theorem someSeal_dropped {n : ℕ} (hn : n ≤ k) (j : ℕ) :
    (dropped k m n b).someSeal k m j = b.someSeal k m j := by
  simp only [someSeal, hasParity_dropped hn, sealAt_dropped]

theorem allSeal_dropped {n : ℕ} (hn : n ≤ k) (j : ℕ) :
    (dropped k m n b).allSeal k m j = b.allSeal k m j := by
  simp only [allSeal, hasParity_dropped hn, sealAt_dropped]

theorem StripeBuffer.Survives.dropped (h : b.Survives k m) {n : ℕ} (hn : n ≤ k) :
    (dropped k m n b).Survives k m := by
  constructor
  · obtain ⟨i, hi, hp⟩ := h.some
    exact ⟨i, hi, by rwa [hasParity_dropped hn]⟩
  · intro i hi hp
    rw [hasParity_dropped hn] at hp
    exact h.seals i hi hp

theorem followParities_dropped (h : b.Survives k m) {n : ℕ} (hn : n < k) :
    followParities k m (dropped k m n b) n =
      if b.allSeal k m n = true ∧ b.trueSeal n = false then .error .assertion
      else .ok (dropped k m (n + 1) b) := by
  rw [followParities_eq (h.dropped hn.le) hn, allSeal_dropped hn.le, someSeal_dropped hn.le]
  have htrue : (dropped k m n b).trueSeal n = b.trueSeal n := by
    simp [dropped]
  rw [htrue]
  by_cases hfail : b.allSeal k m n = true ∧ b.trueSeal n = false
  · rw [if_pos hfail, if_pos hfail]
  · rw [if_neg hfail, if_neg hfail]
    congr 1
    have hlt : ∀ j, j ≠ n → (j < n + 1 ↔ j < n) := by omega
    by_cases hdrop : b.someSeal k m n = false ∧ b.trueSeal n = true
    · rw [if_pos hdrop]
      unfold dropped setChunk setTrueSeal
      dsimp only
      congr 1
      · funext j
        by_cases hjn : j = n
        · subst hjn
          simp [hdrop]
        · rw [Function.update_of_ne hjn]
          simp only [hlt j hjn]
      · funext j
        by_cases hjn : j = n
        · subst hjn
          simp [hdrop]
        · rw [Function.update_of_ne hjn]
          simp only [hlt j hjn]
    · rw [if_neg hdrop]
      unfold dropped
      congr 1
      · funext j
        by_cases hjn : j = n
        · subst hjn
          rw [if_neg fun hd => hdrop hd.2, if_neg fun hd => hdrop hd.2]
        · simp only [hlt j hjn]
      · funext j
        by_cases hjn : j = n
        · subst hjn
          rw [if_neg (lt_irrefl j), if_pos j.lt_succ_self]
          cases hs : b.someSeal k m j with
          | true => rw [Bool.and_true]
          | false => simpa [hs] using hdrop
        · simp only [hlt j hjn]

/-- The first loop goes through when a data chunk that all parity chunks have is marked as
sealed. -/
theorem followParities_loop (h : b.Survives k m) (b' : StripeBuffer) :
    (List.range k).foldlM (followParities k m) b = .ok b' ↔
      (∀ j < k, b.allSeal k m j = true → b.trueSeal j = true) ∧ b' = dropped k m k b := by
  have hstart : b = dropped k m 0 b := by
    simp [dropped]
  have hpass : ∀ n < k, ∀ s, s = dropped k m n b →
      (b.allSeal k m n = true → b.trueSeal n = true) →
      ∃ s', followParities k m s n = .ok s' ∧ s' = dropped k m (n + 1) b := by
    rintro n hn s rfl hguard
    refine ⟨_, ?_, rfl⟩
    rw [followParities_dropped h hn, if_neg]
    rintro ⟨hall, hfalse⟩
    rw [hguard hall] at hfalse
    cases hfalse
  constructor
  · refine foldlM_range_guard (P := fun n s => s = dropped k m n b) hstart hpass ?_
    rintro n hn s rfl hguard
    refine ⟨.assertion, ?_⟩
    rw [followParities_dropped h hn, if_pos]
    simpa only [Classical.not_imp, Bool.not_eq_true] using hguard
  · rintro ⟨hguard, rfl⟩
    obtain ⟨t, hrun, rfl⟩ := foldlM_range (P := fun n s => s = dropped k m n b) hstart
      fun n hn s hs => hpass n hn s hs (hguard n hn)
    exact hrun

/-! ## The second loop -/

variable {cfg : GlobalConfig}

section SecondLoop

variable {encode : (ℕ → Memory) → Memory → ℕ → ℕ → ℕ → Memory}

namespace StripeBuffer

/-- The bytes of a chunk. -/
def contentAt (b : StripeBuffer) (l : ℕ) : Memory := ((b.chunks l).map (ChunkRef.content 0)).getD 0

/-- The `i`-th parity chunk does not have data chunk `j`, which is marked as sealed. -/
def misses (b : StripeBuffer) (i j : ℕ) : Bool := b.trueSeal j && !b.sealAt i j

/-- What the `i`-th parity chunk has sealed is marked as sealed, and what it misses is there. -/
def Fillable (b : StripeBuffer) (i j : ℕ) : Prop :=
  (b.sealAt i j = true → b.trueSeal j = true) ∧ (b.misses i j = true → (b.chunks j).isSome = true)

/-- What is XOR-ed into the `i`-th parity chunk for the first `n` data chunks. -/
def added (cfg : GlobalConfig) (encode : (ℕ → Memory) → Memory → ℕ → ℕ → ℕ → Memory)
    (b : StripeBuffer) (i n : ℕ) : Memory :=
  ∑ j ∈ Finset.range n, if b.misses i j then
    .window 0 0 cfg.chunkSize (encode (Pi.single j (b.contentAt j)) 0 i 0 cfg.chunkSize) else 0

/-- The `i`-th parity chunk has been given the first `n` data chunks. -/
structure FilledTo (cfg : GlobalConfig)
    (encode : (ℕ → Memory) → Memory → ℕ → ℕ → ℕ → Memory) (k i n : ℕ) (b : StripeBuffer)
    (s : StripeBuffer × Memory) : Prop where
  zeros : s.2 = 0
  trueSeal : s.1.trueSeal = b.trueSeal
  chunks : ∀ l, l ≠ k + i → s.1.chunks l = b.chunks l
  rows : ∀ i', i' ≠ i → s.1.sealIndicators i' = b.sealIndicators i'
  seals : s.1.HasSeals k i
  sealAt : ∀ j < k, s.1.sealAt i j = (b.sealAt i j || (decide (j < n) && b.misses i j))
  parity : ∃ ref, s.1.chunks (k + i) = some ref ∧
    ref.content 0 = b.contentAt (k + i) + added cfg encode b i n ∧
    ((∃ j < k, b.misses i j = true) → ref ≠ .zeros)

theorem sealAt_setSealIndicator {b : StripeBuffer} {i n : ℕ} (h : b.HasSeals k i) (hn : n < k)
    (j : ℕ) :
    (b.setSealIndicator i ((b.sealIndicators i).map fun row => row.set n true)).sealAt i j =
      (b.sealAt i j || decide (j = n)) := by
  obtain ⟨row, hrow, hlen⟩ := h
  simp only [sealAt, setSealIndicator, Function.update_self, hrow, Option.map_some,
    Option.getD_some, List.getD_eq_getElem?_getD, List.getElem?_set]
  by_cases hjn : j = n
  · subst hjn
    simp [hlen, hn]
  · simp [hjn, Ne.symm hjn]

theorem added_succ (b : StripeBuffer) (i n : ℕ) : added cfg encode b i (n + 1) =
    added cfg encode b i n + if b.misses i n then
      .window 0 0 cfg.chunkSize (encode (Pi.single n (b.contentAt n)) 0 i 0 cfg.chunkSize) else 0 :=
  Finset.sum_range_succ _ n

end StripeBuffer

variable {s : StripeBuffer × Memory} {n : ℕ}

/-- What a round of the second loop does. -/
theorem sealIntoParity_pass (h : FilledTo cfg encode k i n b s) (hn : n < k)
    (hfill : b.Fillable i n) :
    ∃ s', sealIntoParity k cfg encode i s n = .ok s' ∧ FilledTo cfg encode k i (n + 1) b s' := by
  obtain ⟨b', zeros⟩ := s
  obtain ⟨rfl, htrue, hchunks, hrows, hseals, hsealAt, ref, href, hcontent, hown⟩ := h
  have hread : readSeal (b'.sealIndicators i) n = .ok (b.sealAt i n) := by
    rw [hseals.readSeal hn, hsealAt n hn]
    simp
  have hlt : ∀ j, j ≠ n → (j < n + 1 ↔ j < n) := by omega
  unfold sealIntoParity
  dsimp only at htrue hchunks hrows hseals hsealAt href ⊢
  rw [hread, except_ok_bind, htrue]
  by_cases hsame : b.sealAt i n = b.trueSeal n
  · have hmiss : b.misses i n = false := by
      rw [misses, hsame, Bool.and_not_self]
    refine ⟨(b', 0), if_pos hsame, rfl, htrue, hchunks, hrows, hseals, ?_, ref, href, ?_, hown⟩
    · intro j hj
      rw [hsealAt j hj]
      by_cases hjn : j = n
      · rw [hjn, hmiss, Bool.and_false, Bool.and_false]
      · simp only [hlt j hjn]
    · rw [hcontent, added_succ, hmiss]
      simp
  · have hunsealed : b.sealAt i n = false := by
      cases hs : b.sealAt i n with
      | false => rfl
      | true => exact absurd (hs.trans (hfill.1 hs).symm) hsame
    have hmarked : b.trueSeal n = true := by
      rw [hunsealed] at hsame
      exact Bool.eq_true_of_not_eq_false (Ne.symm hsame)
    have hmiss : b.misses i n = true := by
      rw [misses, hmarked, hunsealed]
      rfl
    obtain ⟨chunk, hchunk⟩ := Option.isSome_iff_exists.mp (hfill.2 hmiss)
    have hcontentAt : b.contentAt n = chunk.content 0 := by
      rw [contentAt, hchunk]
      rfl
    have hne : n ≠ k + i := by omega
    have hsingle : (fun l => if l = n then chunk.content 0 else 0) =
        (Pi.single n (chunk.content 0) : ℕ → Memory) := by
      funext l
      by_cases hl : l = n
      · subst hl
        rw [if_pos rfl, Pi.single_eq_same]
      · rw [if_neg hl, Pi.single_eq_of_ne hl]
    cases ref with
    | zeros => exact absurd rfl (hown ⟨n, hn, hmiss⟩)
    | chunk P =>
      rw [if_neg hsame, if_pos hmarked, hchunks n hne, hchunk, href]
      dsimp only
      refine ⟨_, rfl, rfl, htrue, ?_, ?_, ?_, ?_, ?_⟩
      · intro l hl
        exact (Function.update_of_ne hl _ _).trans (hchunks l hl)
      · intro i' hi'
        exact (Function.update_of_ne hi' _ _).trans (hrows i' hi')
      · obtain ⟨row, hrow, hlen⟩ := hseals
        refine ⟨row.set n true, ?_, by rw [List.length_set, hlen]⟩
        simp [setSealIndicator, hrow]
      · intro j hj
        have hset := sealAt_setSealIndicator (b := b'.setChunk (k + i)
          (.chunk ((ChunkRef.content 0 (.chunk P)).xorInto 0 (encode
            (fun l => if l = n then chunk.content 0 else 0) 0 i 0 cfg.chunkSize) 0 cfg.chunkSize)))
          hseals hn j
        refine hset.trans ?_
        have hbefore := hsealAt j hj
        rw [show (b'.setChunk _ _).sealAt i j = b'.sealAt i j from rfl, hbefore]
        by_cases hjn : j = n
        · subst hjn
          simp [hmiss]
        · simp [hjn, hlt j hjn]
      · refine ⟨_, Function.update_self .., ?_, fun _ => by simp⟩
        rw [added_succ, if_pos hmiss, ← add_assoc, ← hcontent, hcontentAt, ← hsingle]
        exact Memory.xorInto_eq_add _ 0 _ 0 cfg.chunkSize

/-- A round that cannot be made stops the program. -/
theorem sealIntoParity_stop (h : FilledTo cfg encode k i n b s) (hn : n < k)
    (hfill : ¬b.Fillable i n) : ∃ e, sealIntoParity k cfg encode i s n = .error e := by
  obtain ⟨b', zeros⟩ := s
  obtain ⟨rfl, htrue, hchunks, -, hseals, hsealAt, -⟩ := h
  have hread : readSeal (b'.sealIndicators i) n = .ok (b.sealAt i n) := by
    rw [hseals.readSeal hn, hsealAt n hn]
    simp
  unfold sealIntoParity
  dsimp only at htrue hchunks ⊢
  rw [hread, except_ok_bind, htrue]
  cases hs : b.sealAt i n with
  | true =>
    cases ht : b.trueSeal n with
    | true => exact absurd ⟨fun _ => ht, by simp [misses, hs]⟩ hfill
    | false => exact ⟨.assertion, by simp [throw, throwThe, MonadExceptOf.throw]⟩
  | false =>
    cases ht : b.trueSeal n with
    | false => exact absurd ⟨by simp [hs], by simp [misses, ht]⟩ hfill
    | true =>
      have hnone : b.chunks n = none := by
        by_contra hsome
        exact hfill ⟨by simp [hs], fun _ => Option.isSome_iff_ne_none.mpr hsome⟩
      have hne : n ≠ k + i := by omega
      rw [hchunks n hne, hnone]
      exact ⟨.nullPointer, by simp [throw, throwThe, MonadExceptOf.throw]⟩

/-- The second loop over one parity chunk goes through when all its rounds can be made. -/
theorem sealIntoParity_loop (h : FilledTo cfg encode k i 0 b s) :
    ((∀ j < k, b.Fillable i j) → ∃ s',
      (List.range k).foldlM (sealIntoParity k cfg encode i) s = .ok s' ∧
        FilledTo cfg encode k i k b s') ∧
    ∀ s', (List.range k).foldlM (sealIntoParity k cfg encode i) s = .ok s' →
      (∀ j < k, b.Fillable i j) ∧ FilledTo cfg encode k i k b s' := by
  constructor
  · intro hfill
    exact foldlM_range (P := fun n s => FilledTo cfg encode k i n b s) h
      fun n hn s hs => sealIntoParity_pass hs hn (hfill n hn)
  · intro s'
    exact foldlM_range_guard (P := fun n s => FilledTo cfg encode k i n b s) h
      (fun n hn s hs hfill => sealIntoParity_pass hs hn hfill)
      fun n hn s hs hfill => sealIntoParity_stop hs hn hfill

namespace StripeBuffer

/-- A parity chunk that misses a data chunk is not `Coding::zeros`. -/
def Own (k m : ℕ) (b : StripeBuffer) : Prop :=
  ∀ i < m, b.hasParity k i = true → (∃ j < k, b.misses i j = true) → b.holdsParity k i = true

/-- A parity chunk has been given all the data chunks that are marked as sealed. -/
structure Filled (cfg : GlobalConfig)
    (encode : (ℕ → Memory) → Memory → ℕ → ℕ → ℕ → Memory) (k i : ℕ) (b b' : StripeBuffer) :
    Prop where
  seals : b'.HasSeals k i
  sealAt : ∀ j < k, b'.sealAt i j = b.trueSeal j
  content : b'.contentAt (k + i) = b.contentAt (k + i) + added cfg encode b i k

/-- The first `n` parity chunks have been given all the data chunks that are marked as sealed. -/
structure FilledParities (cfg : GlobalConfig)
    (encode : (ℕ → Memory) → Memory → ℕ → ℕ → ℕ → Memory) (k n : ℕ) (b : StripeBuffer)
    (s : StripeBuffer × Memory) : Prop where
  zeros : s.2 = 0
  trueSeal : s.1.trueSeal = b.trueSeal
  hasParity : ∀ i, s.1.hasParity k i = b.hasParity k i
  chunks : ∀ l, l < k ∨ k + n ≤ l → s.1.chunks l = b.chunks l
  rows : ∀ i, n ≤ i → s.1.sealIndicators i = b.sealIndicators i
  filled : ∀ i < n, b.hasParity k i = true → Filled cfg encode k i b s.1

variable {b b' : StripeBuffer} {i j : ℕ}

theorem sealAt_congr (h : b'.sealIndicators i = b.sealIndicators i) (j : ℕ) :
    b'.sealAt i j = b.sealAt i j := by
  rw [sealAt, sealAt, h]

theorem sealAt_of_ge (h : b.HasSeals k i) (hj : k ≤ j) : b.sealAt i j = false := by
  obtain ⟨row, hrow, hlen⟩ := h
  simp [sealAt, hrow, hlen, hj]

theorem hasParity_iff : b.hasParity k i = true ↔ ∃ ref, b.chunks (k + i) = some ref :=
  Option.isSome_iff_exists

end StripeBuffer

/-- Before the second loop over the `n`-th parity chunk. -/
theorem StripeBuffer.FilledParities.filledTo (h : FilledParities cfg encode k n b s)
    (hp : b.hasParity k n = true) (hseals : b.HasSeals k n)
    (hown : (∃ j < k, b.misses n j = true) → b.holdsParity k n = true) :
    FilledTo cfg encode k n 0 s.1 s := by
  have hrow : s.1.sealIndicators n = b.sealIndicators n := h.rows n le_rfl
  have hchunk : s.1.chunks (k + n) = b.chunks (k + n) := h.chunks _ (Or.inr le_rfl)
  obtain ⟨ref, href⟩ := hasParity_iff.mp hp
  refine ⟨h.zeros, rfl, fun _ _ => rfl, fun _ _ => rfl, ?_, ?_, ref, hchunk.trans href, ?_, ?_⟩
  · obtain ⟨row, hb, hlen⟩ := hseals
    exact ⟨row, hrow.trans hb, hlen⟩
  · intro j _
    simp
  · simp [contentAt, hchunk, href, added]
  · rintro ⟨j, hj, hmiss⟩ rfl
    rw [misses, h.trueSeal, sealAt_congr hrow] at hmiss
    have hholds := hown ⟨j, hj, hmiss⟩
    simp [holdsParity, href] at hholds

namespace StripeBuffer.FilledParities

variable (h : FilledParities cfg encode k n b s)
include h

theorem sealAt_later (j : ℕ) : s.1.sealAt n j = b.sealAt n j := sealAt_congr (h.rows n le_rfl) j

theorem misses_later (j : ℕ) : s.1.misses n j = b.misses n j := by
  rw [misses, misses, h.trueSeal, h.sealAt_later]

theorem fillable_later {j : ℕ} (hj : j < k) : s.1.Fillable n j ↔ b.Fillable n j := by
  unfold Fillable
  rw [h.misses_later, h.sealAt_later, h.trueSeal, h.chunks j (Or.inl hj)]

theorem added_later : added cfg encode s.1 n k = added cfg encode b n k := by
  apply Finset.sum_congr rfl
  intro j hj
  have hcontent : s.1.contentAt j = b.contentAt j := by
    rw [contentAt, contentAt, h.chunks j (Or.inl (Finset.mem_range.mp hj))]
  rw [h.misses_later, hcontent]

/-- After the second loop over the `n`-th parity chunk. -/
theorem succ {s' : StripeBuffer × Memory} (hp : b.hasParity k n = true)
    (hfill : ∀ j < k, s.1.Fillable n j) (h' : FilledTo cfg encode k n k s.1 s') :
    FilledParities cfg encode k (n + 1) b s' := by
  obtain ⟨ref, href, hcontent, -⟩ := h'.parity
  have hfilled : Filled cfg encode k n b s'.1 := by
    refine ⟨h'.seals, ?_, ?_⟩
    · intro j hj
      have hseal := (hfill j hj).1
      rw [h'.sealAt j hj, decide_eq_true hj, Bool.true_and, misses, h.trueSeal] at *
      cases hs : s.1.sealAt n j with
      | true => simp [hseal hs]
      | false => simp
    · have hchunk : s.1.contentAt (k + n) = b.contentAt (k + n) := by
        rw [contentAt, contentAt, h.chunks _ (Or.inr le_rfl)]
      rw [contentAt, href, ← h.added_later, ← hchunk]
      exact hcontent
  constructor
  · exact h'.zeros
  · exact h'.trueSeal.trans h.trueSeal
  · intro i
    by_cases hi : i = n
    · subst hi
      rw [hp]
      exact hasParity_iff.mpr ⟨ref, href⟩
    · have hne : k + i ≠ k + n := by omega
      rw [← h.hasParity i]
      unfold StripeBuffer.hasParity
      rw [h'.chunks _ hne]
  · intro l hl
    have hne : l ≠ k + n := by omega
    rw [h'.chunks l hne]
    exact h.chunks l (by omega)
  · intro i hi
    rw [h'.rows i (by omega)]
    exact h.rows i (by omega)
  · intro i hi hpi
    rcases Nat.lt_succ_iff_lt_or_eq.mp hi with hlt | rfl
    · obtain ⟨hseals, hsealAt, hkeep⟩ := h.filled i hlt hpi
      have hrow := h'.rows i (Nat.ne_of_lt hlt)
      have hne : k + i ≠ k + n := by omega
      refine ⟨?_, ?_, ?_⟩
      · unfold HasSeals
        rw [hrow]
        exact hseals
      · intro j hj
        rw [sealAt_congr hrow, hsealAt j hj]
      · rw [contentAt, h'.chunks _ hne]
        exact hkeep
    · exact hfilled

/-- A parity chunk that is not there is passed over. -/
theorem skip (hp : b.hasParity k n = false) : FilledParities cfg encode k (n + 1) b s := by
  refine ⟨h.zeros, h.trueSeal, h.hasParity, ?_, ?_, ?_⟩
  · intro l hl
    exact h.chunks l (by omega)
  · intro i hi
    exact h.rows i (by omega)
  · intro i hi hpi
    rcases Nat.lt_succ_iff_lt_or_eq.mp hi with hlt | rfl
    · exact h.filled i hlt hpi
    · rw [hp] at hpi
      cases hpi

end StripeBuffer.FilledParities

variable (cfg encode) in
/-- The second loop goes through when all data chunks that parity chunks miss are there. -/
theorem fillParities_loop (hseals : ∀ i < m, b.hasParity k i = true → b.HasSeals k i)
    (hown : b.Own k m) :
    let loop := (List.range m).foldlM (fun s i =>
      if s.1.hasParity k i then (List.range k).foldlM (sealIntoParity k cfg encode i) s
      else .ok s) (b, (0 : Memory))
    ((∀ i < m, b.hasParity k i = true → ∀ j < k, b.Fillable i j) → ∃ s',
      loop = .ok s' ∧ FilledParities cfg encode k m b s') ∧
    ∀ s', loop = .ok s' →
      (∀ i < m, b.hasParity k i = true → ∀ j < k, b.Fillable i j) ∧
        FilledParities cfg encode k m b s' := by
  intro loop
  have hstart : FilledParities cfg encode k 0 b (b, 0) :=
    ⟨rfl, rfl, fun _ => rfl, fun _ _ => rfl, fun _ _ => rfl,
      fun _ hi => absurd hi (Nat.not_lt_zero _)⟩
  have hpass : ∀ i < m, ∀ s, FilledParities cfg encode k i b s →
      (b.hasParity k i = true → ∀ j < k, b.Fillable i j) →
      ∃ s', (if s.1.hasParity k i then (List.range k).foldlM (sealIntoParity k cfg encode i) s
        else .ok s) = .ok s' ∧ FilledParities cfg encode k (i + 1) b s' := by
    intro i hi s hs hfill
    rw [hs.hasParity]
    cases hp : b.hasParity k i with
    | false => exact ⟨s, rfl, hs.skip hp⟩
    | true =>
      have hfill' : ∀ j < k, s.1.Fillable i j :=
        fun j hj => (hs.fillable_later hj).mpr (hfill hp j hj)
      have hto := hs.filledTo hp (hseals i hi hp) (hown i hi hp)
      obtain ⟨s', hrun, hs'⟩ := (sealIntoParity_loop hto).1 hfill'
      exact ⟨s', hrun, hs.succ hp hfill' hs'⟩
  constructor
  · intro hfill
    exact foldlM_range hstart fun i hi s hs => hpass i hi s hs (hfill i hi)
  · intro s' hrun
    refine foldlM_range_guard hstart hpass ?_ hrun
    intro i hi s hs hstuck
    rw [Classical.not_imp] at hstuck
    obtain ⟨hp, hstuck⟩ := hstuck
    rw [hs.hasParity, hp, if_pos rfl]
    have hto := hs.filledTo hp (hseals i hi hp) (hown i hi hp)
    cases hinner : (List.range k).foldlM (sealIntoParity k cfg encode i) s with
    | error e => exact ⟨e, rfl⟩
    | ok t =>
      obtain ⟨hfill, -⟩ := (sealIntoParity_loop hto).2 t hinner
      exact absurd (fun j hj => (hs.fillable_later hj).mp (hfill j hj)) hstuck

/-! ## What is left in the parity chunks -/

/-- Each parity chunk encodes the data chunks that it has sealed. -/
def ParitiesHold (cfg : GlobalConfig) (encode : (ℕ → Memory) → Memory → ℕ → ℕ → ℕ → Memory)
    (k m : ℕ) (data : ℕ → Memory) (b : StripeBuffer) : Prop :=
  ∀ i < m, b.hasParity k i = true → b.HasSeals k i ∧
    SameChunk cfg (b.contentAt (k + i)) (encode (sealedData data (b.sealAt i)) 0 (i + 1) 0 0)

namespace StripeBuffer

/-- Some parity chunk has data chunk `j`, but not the `i`-th one. -/
def lacks (k m : ℕ) (b : StripeBuffer) (i j : ℕ) : Bool := b.someSeal k m j && !b.sealAt i j

/-- What some parity chunk has sealed is marked as sealed, and where another one does not have it,
the data chunk is there. -/
def Sealable (b : StripeBuffer) (k m : ℕ) : Prop :=
  ∀ j < k, b.someSeal k m j = true → b.trueSeal j = true ∧
    ∀ i < m, b.hasParity k i = true → b.sealAt i j = false → (b.chunks j).isSome = true

end StripeBuffer

/-- A stripe whose parity chunks may differ in what they have sealed. -/
structure MixedStripe (cfg : GlobalConfig)
    (encode : (ℕ → Memory) → Memory → ℕ → ℕ → ℕ → Memory) (k m : ℕ) (data : ℕ → Memory)
    (b : StripeBuffer) : Prop where
  survives : ∃ i < m, b.hasParity k i = true
  parities : ParitiesHold cfg encode k m data b
  sealed : ∀ j < k, b.trueSeal j = true → ∀ ref, b.chunks j = some ref → ref.content 0 = data j
  /-- A parity chunk that lacks a data chunk is not `Coding::zeros`. -/
  own : ∀ i < m, b.hasParity k i = true → (∃ j < k, b.lacks k m i j = true) →
    b.holdsParity k i = true

/-- `forceSeal` ends and each parity chunk encodes the data chunks that it has sealed then. -/
def ForceSealed (cfg : GlobalConfig) (encode : (ℕ → Memory) → Memory → ℕ → ℕ → ℕ → Memory)
    (k m : ℕ) (data : ℕ → Memory) (b : StripeBuffer) : Prop :=
  ∃ b', forceSeal k cfg encode m b 0 = .ok (b', 0) ∧ (∀ i, b'.hasParity k i = b.hasParity k i) ∧
    ParitiesHold cfg encode k m data b'

/-- What is encoded into the `i`-th parity chunk for the data chunks that it lacks. -/
def lackingParity (cfg : GlobalConfig) (encode : (ℕ → Memory) → Memory → ℕ → ℕ → ℕ → Memory)
    (k m : ℕ) (data : ℕ → Memory) (b : StripeBuffer) (i : ℕ) : Memory :=
  ∑ j ∈ Finset.range k,
    if b.lacks k m i j then encode (Pi.single j (data j)) 0 i 0 cfg.chunkSize else 0

theorem misses_dropped (hj : j < k) (i : ℕ) :
    (dropped k m k b).misses i j = (b.trueSeal j && b.lacks k m i j) := by
  simp [misses, dropped, hj, lacks, sealAt, Bool.and_assoc]

theorem trueSeal_dropped (hseal : b.Sealable k m) {j : ℕ} (hj : j < k) :
    (dropped k m k b).trueSeal j = b.someSeal k m j := by
  have hdrop : (dropped k m k b).trueSeal j = (b.trueSeal j && b.someSeal k m j) := by
    simp [dropped, hj]
  rw [hdrop]
  cases hsome : b.someSeal k m j with
  | false => rw [Bool.and_false]
  | true => rw [(hseal j hj hsome).1, Bool.and_true]

namespace MixedStripe

variable {data : ℕ → Memory} (h : MixedStripe cfg encode k m data b)
include h

theorem toSurvives : b.Survives k m := ⟨h.survives, fun i hi hp => (h.parities i hi hp).1⟩

theorem someSeal_of_ge (hj : k ≤ j) : b.someSeal k m j = false := by
  rw [← Bool.not_eq_true]
  intro hsome
  obtain ⟨i, hi, hp, hseal⟩ := someSeal_iff.mp hsome
  rw [sealAt_of_ge (h.parities i hi hp).1 hj] at hseal
  cases hseal

theorem own_dropped : (dropped k m k b).Own k m := by
  rintro i hi hp ⟨j, hj, hmiss⟩
  rw [hasParity_dropped le_rfl] at hp
  rw [misses_dropped hj, Bool.and_eq_true] at hmiss
  have hholds := h.own i hi hp ⟨j, hj, hmiss.2⟩
  have hge : ¬(k + i < k ∧ b.someSeal k m (k + i) = false ∧ b.trueSeal (k + i) = true) := by omega
  unfold holdsParity dropped
  dsimp only
  rw [if_neg hge]
  exact hholds

/-- The guards of the two loops. -/
theorem sealable_iff : b.Sealable k m ↔
    (∀ j < k, b.allSeal k m j = true → b.trueSeal j = true) ∧
      ∀ i < m, (dropped k m k b).hasParity k i = true →
        ∀ j < k, (dropped k m k b).Fillable i j := by
  have hdropped : ∀ j < k, b.someSeal k m j = true → (dropped k m k b).chunks j = b.chunks j := by
    intro j _ hsome
    simp [dropped, hsome]
  have htrue : ∀ j < k, (dropped k m k b).trueSeal j = (b.trueSeal j && b.someSeal k m j) := by
    intro j hj
    simp [dropped, hj]
  constructor
  · intro hseal
    refine ⟨fun j hj hall => (hseal j hj (h.toSurvives.someSeal_of_all hall)).1, ?_⟩
    intro i hi hp j hj
    rw [hasParity_dropped le_rfl] at hp
    constructor
    · intro hsealAt
      have hsome : b.someSeal k m j = true := someSeal_iff.mpr ⟨i, hi, hp, hsealAt⟩
      rw [htrue j hj, (hseal j hj hsome).1, hsome]
      rfl
    · intro hmiss
      rw [misses_dropped hj, Bool.and_eq_true, lacks, Bool.and_eq_true,
        Bool.not_eq_true'] at hmiss
      obtain ⟨-, hsome, hfalse⟩ := hmiss
      rw [hdropped j hj hsome]
      exact (hseal j hj hsome).2 i hi hp hfalse
  · rintro ⟨-, hfill⟩ j hj hsome
    have hmarked : b.trueSeal j = true := by
      obtain ⟨i, hi, hp, hsealAt⟩ := someSeal_iff.mp hsome
      have hmark := (hfill i hi (by rwa [hasParity_dropped le_rfl]) j hj).1 hsealAt
      rw [htrue j hj, Bool.and_eq_true] at hmark
      exact hmark.1
    refine ⟨hmarked, fun i hi hp hfalse => ?_⟩
    rw [← hdropped j hj hsome]
    apply (hfill i hi (by rwa [hasParity_dropped le_rfl]) j hj).2
    rw [misses_dropped hj, hmarked, lacks, hsome, hfalse]
    rfl

/-- Where the loops go through, what the second one adds is the parity of the chunks lacked. -/
theorem added_dropped (hseal : b.Sealable k m) (hi : i < m) (hp : b.hasParity k i = true) :
    added cfg encode (dropped k m k b) i k =
      .window 0 0 cfg.chunkSize (lackingParity cfg encode k m data b i) := by
  rw [← Memory.windowHom_apply, lackingParity, map_sum]
  apply Finset.sum_congr rfl
  intro j hj
  have hj' : j < k := Finset.mem_range.mp hj
  rw [misses_dropped hj']
  cases hlack : b.lacks k m i j with
  | false =>
    rw [Bool.and_false]
    simp
  | true =>
    rw [lacks, Bool.and_eq_true, Bool.not_eq_true'] at hlack
    obtain ⟨hmarked, hthere⟩ := hseal j hj' hlack.1
    obtain ⟨ref, href⟩ := Option.isSome_iff_exists.mp (hthere i hi hp hlack.2)
    have hchunk : (dropped k m k b).contentAt j = data j := by
      rw [← h.sealed j hj' hmarked ref href]
      simp [contentAt, dropped, hlack.1, href]
    rw [hmarked, hchunk]
    rfl

/-- What is left when both loops have gone through. -/
theorem paritiesHold_iff (hseal : b.Sealable k m) {b' : StripeBuffer}
    (h' : FilledParities cfg encode k m (dropped k m k b) (b', 0)) :
    ParitiesHold cfg encode k m data b' ↔ ∀ i < m, b.hasParity k i = true →
      SameChunk cfg (encode (sealedData data (b.sealAt i)) 0 (i + 1) 0 0 +
          lackingParity cfg encode k m data b i)
        (encode (sealedData data (b.someSeal k m)) 0 (i + 1) 0 0) := by
  apply forall₂_congr
  intro i hi
  have hthere : b'.hasParity k i = b.hasParity k i :=
    (h'.hasParity i).trans (hasParity_dropped le_rfl i)
  rw [hthere]
  apply imp_congr_right
  intro hp
  obtain ⟨hseals, hsealAt, hcontent⟩ := h'.filled i hi (by rwa [hasParity_dropped le_rfl])
  have hrow : b'.sealAt i = b.someSeal k m := by
    funext j
    by_cases hj : j < k
    · exact (hsealAt j hj).trans (trueSeal_dropped hseal hj)
    · rw [sealAt_of_ge hseals (Nat.le_of_not_lt hj), h.someSeal_of_ge (Nat.le_of_not_lt hj)]
  have hkept : (dropped k m k b).contentAt (k + i) = b.contentAt (k + i) := by
    simp [contentAt, dropped]
  rw [hrow, and_iff_right hseals]
  apply forall₂_congr
  intro x hx
  have hbefore := (h.parities i hi hp).2 x hx
  dsimp only at hcontent
  rw [hcontent, hkept, h.added_dropped hseal hi hp, Memory.add_apply, Memory.add_apply, hbefore,
    Memory.window, if_pos (by omega), Nat.sub_zero]
  exact Iff.rfl

/-- `forceSeal` gives each parity chunk what it lacks, and it is to be seen whether that is the
encoding of what is sealed then. -/
theorem forceSealed_iff_encoded : ForceSealed cfg encode k m data b ↔ b.Sealable k m ∧
    ∀ i < m, b.hasParity k i = true →
      SameChunk cfg (encode (sealedData data (b.sealAt i)) 0 (i + 1) 0 0 +
          lackingParity cfg encode k m data b i)
        (encode (sealedData data (b.someSeal k m)) 0 (i + 1) 0 0) := by
  have hfirst := followParities_loop h.toSurvives
  have hseals : ∀ i < m, (dropped k m k b).hasParity k i = true →
      (dropped k m k b).HasSeals k i := (h.toSurvives.dropped le_rfl).seals
  obtain ⟨hthrough, hback⟩ := fillParities_loop cfg encode hseals h.own_dropped
  constructor
  · rintro ⟨b', hrun, -, hhold⟩
    unfold forceSeal at hrun
    cases hloop : (List.range k).foldlM (followParities k m) b with
    | error e =>
      rw [hloop] at hrun
      cases hrun
    | ok b₁ =>
      obtain ⟨hall, rfl⟩ := (hfirst b₁).mp hloop
      rw [hloop, except_ok_bind] at hrun
      obtain ⟨hfill, hfilled⟩ := hback _ hrun
      have hseal : b.Sealable k m := h.sealable_iff.mpr ⟨hall, hfill⟩
      exact ⟨hseal, (h.paritiesHold_iff hseal hfilled).mp hhold⟩
  · rintro ⟨hseal, hsame⟩
    obtain ⟨hall, hfill⟩ := h.sealable_iff.mp hseal
    obtain ⟨⟨b', zeros⟩, hrun, hfilled⟩ := hthrough hfill
    obtain rfl : zeros = 0 := hfilled.zeros
    refine ⟨b', ?_, ?_, (h.paritiesHold_iff hseal hfilled).mpr hsame⟩
    · unfold forceSeal
      rw [(hfirst _).mpr ⟨hall, rfl⟩, except_ok_bind]
      exact hrun
    · intro i
      exact (hfilled.hasParity i).trans (hasParity_dropped le_rfl i)

end MixedStripe

end SecondLoop

/-! ## The codes -/

/-- The coders of stripes that have parity chunks. -/
inductive StripeCoding (cfg : GlobalConfig)
  | raid1
  | xor (c : Coding cfg)
  | isal (c : IsalCoding)

namespace StripeCoding

/-- `Coding::encode`. -/
def encode : StripeCoding cfg → (ℕ → Memory) → Memory → ℕ → ℕ → ℕ → Memory
  | raid1, data, parity, _, _, _ => RAID1Coding.encode cfg data parity
  | xor c, data, parity, index, startOff, endOff => c.encode data parity index startOff endOff
  | isal c, data, parity, index, startOff, endOff => c.encode cfg data parity index startOff endOff

variable (c : StripeCoding cfg)

/-- The data of different data chunks is encoded on its own. -/
theorem encode_add {data data' : ℕ → Memory} (h : ∀ j, data j = 0 ∨ data' j = 0)
    (index startOff endOff : ℕ) :
    c.encode (data + data') 0 index startOff endOff =
      c.encode data 0 index startOff endOff + c.encode data' 0 index startOff endOff := by
  cases c with
  | raid1 =>
    have hzero : ∀ data : ℕ → Memory, data 0 = 0 → RAID1Coding.encode cfg data 0 = 0 := by
      intro data hdata
      ext i : 1
      rw [RAID1Coding.encode_apply, hdata]
      exact ite_self 0
    have hcongr : ∀ data' : ℕ → Memory, (data + data') 0 = data 0 + data' 0 := fun _ => rfl
    unfold encode
    dsimp only
    rcases h 0 with hleft | hright
    · rw [hzero data hleft, zero_add, RAID1Coding.encode, RAID1Coding.encode, hcongr, hleft,
        zero_add]
    · rw [hzero data' hright, add_zero, RAID1Coding.encode, RAID1Coding.encode, hcongr, hright,
        add_zero]
  | xor c => exact (c.accumulates index startOff endOff).map_add data data'
  | isal c => exact c.encode_add data data' index startOff endOff

theorem encode_zero (index startOff endOff : ℕ) : c.encode 0 0 index startOff endOff = 0 := by
  have hdisjoint : ∀ j, (0 : ℕ → Memory) j = 0 ∨ (0 : ℕ → Memory) j = 0 := fun _ => Or.inl rfl
  have h := c.encode_add hdisjoint index startOff endOff
  rw [add_zero] at h
  exact left_eq_add.mp h

variable {data : ℕ → Memory}

/-- Data chunks one by one. -/
theorem sum_encode_single (sealed : ℕ → Bool) (n index startOff endOff : ℕ) :
    ∑ j ∈ Finset.range n,
      (if sealed j then c.encode (Pi.single j (data j)) 0 index startOff endOff else 0) =
        c.encode (sealedData data fun j => decide (j < n) && sealed j) 0 index startOff endOff := by
  induction n with
  | zero =>
    have hnone : (sealedData data fun j => decide (j < 0) && sealed j) = 0 := by
      funext j
      simp [sealedData]
    rw [Finset.sum_range_zero, hnone, c.encode_zero]
  | succ n ih =>
    have hsplit : (sealedData data fun j => decide (j < n + 1) && sealed j) =
        (sealedData data fun j => decide (j < n) && sealed j) +
          if sealed n then Pi.single n (data n) else 0 := by
      funext j
      rw [Pi.add_apply]
      by_cases hj : j = n
      · subst hj
        cases hs : sealed j <;> simp [sealedData, hs]
      · have hlt : j < n + 1 ↔ j < n := by omega
        cases hs : sealed n <;> simp [sealedData, hlt, Pi.single_eq_of_ne hj]
    rw [Finset.sum_range_succ, ih, hsplit, c.encode_add]
    · congr 1
      split_ifs
      · rfl
      · exact (c.encode_zero index startOff endOff).symm
    · intro j
      by_cases hj : j = n
      · left
        simp [sealedData, hj]
      · right
        split_ifs
        · exact Pi.single_eq_of_ne hj _
        · rfl

/-- What is sealed at last is what was sealed before and what was lacked. -/
theorem sealedData_someSeal {i : ℕ} (hi : i < m) (hp : b.hasParity k i = true) :
    sealedData data (b.someSeal k m) =
      sealedData data (b.sealAt i) + sealedData data (b.lacks k m i) := by
  funext j
  change sealedData data (b.someSeal k m) j =
    sealedData data (b.sealAt i) j + sealedData data (b.lacks k m i) j
  unfold sealedData lacks
  cases hs : b.sealAt i j with
  | true =>
    rw [someSeal_iff.mpr ⟨i, hi, hp, hs⟩]
    simp
  | false => cases b.someSeal k m j <;> simp

/-- `forceSeal` is right when sealing the data chunks that a parity chunk lacks makes no difference
between the index that it encodes with and the next one, and between the range of the first data
chunk and the whole stripe. -/
theorem forceSealed_iff (h : MixedStripe cfg c.encode k m data b) :
    ForceSealed cfg c.encode k m data b ↔ b.Sealable k m ∧
      ∀ i < m, b.hasParity k i = true →
        SameChunk cfg (c.encode (sealedData data (b.lacks k m i)) 0 i 0 cfg.chunkSize)
          (c.encode (sealedData data (b.lacks k m i)) 0 (i + 1) 0 0) := by
  rw [h.forceSealed_iff_encoded]
  apply and_congr_right
  intro _
  apply forall₂_congr
  intro i hi
  apply imp_congr_right
  intro hp
  have hlt : (fun j => decide (j < k) && b.lacks k m i j) = b.lacks k m i := by
    funext j
    by_cases hj : j < k
    · simp [hj]
    · simp [lacks, h.someSeal_of_ge (Nat.le_of_not_lt hj)]
  have hdisjoint : ∀ j, sealedData data (b.sealAt i) j = 0 ∨
      sealedData data (b.lacks k m i) j = 0 := by
    intro j
    cases hs : b.sealAt i j <;> simp [sealedData, lacks, hs]
  rw [lackingParity, c.sum_encode_single, hlt, sealedData_someSeal hi hp, c.encode_add hdisjoint]
  apply forall₂_congr
  intro x _
  rw [Memory.add_apply, Memory.add_apply, UInt8.xor_right_inj]

end StripeCoding

/-! ## The first parity chunk of RDP lacks a data chunk -/

def sampleRDP : StripeCoding .smallest := .xor (.rdp ⟨3, 5, 8, rfl, by decide⟩)

def mixedData (j : ℕ) : Memory := .place j [7]

/-- The first and the third data chunk are lost, the first parity chunk has sealed these two, and
the second parity chunk has sealed them all. -/
def mixedStripe : StripeBuffer where
  chunks l :=
    if l = 1 then some (.chunk (mixedData 1))
    else if l = 3 then
      some (.chunk (sampleRDP.encode
        (sealedData mixedData fun j => [true, false, true].getD j false) 0 1 0 0))
    else if l = 4 then
      some (.chunk (sampleRDP.encode
        (sealedData mixedData fun j => [true, true, true].getD j false) 0 2 0 0))
    else none
  sealIndicators i :=
    if i = 0 then some [true, false, true] else if i = 1 then some [true, true, true] else none
  trueSeal _ := true
  pending := 0
  selfIt := none

theorem mixedStripe_mixed : MixedStripe .smallest sampleRDP.encode 3 2 mixedData mixedStripe := by
  constructor
  · exact ⟨0, by decide, rfl⟩
  · intro i hi _
    interval_cases i
    · exact ⟨⟨_, rfl, rfl⟩, SameChunk.refl _⟩
    · exact ⟨⟨_, rfl, rfl⟩, SameChunk.refl _⟩
  · intro j hj _ ref href
    interval_cases j
    · cases href
    · cases href
      rfl
    · cases href
  · intro i hi _ _
    interval_cases i
    · rfl
    · rfl

theorem forceSealed_iff_mixedStripe :
    ForceSealed .smallest sampleRDP.encode 3 2 mixedData mixedStripe ↔
      mixedStripe.Sealable 3 2 ∧ ∀ i < 2, mixedStripe.hasParity 3 i = true →
        SameChunk .smallest
          (sampleRDP.encode (sealedData mixedData (mixedStripe.lacks 3 2 i)) 0 i 0 32)
          (sampleRDP.encode (sealedData mixedData (mixedStripe.lacks 3 2 i)) 0 (i + 1) 0 0) :=
  sampleRDP.forceSealed_iff mixedStripe_mixed

/-- `forceSeal` encodes with the index of no parity chunk, and the second data chunk is never added
to the first parity chunk. -/
theorem not_forceSealed_mixedStripe :
    MixedStripe .smallest sampleRDP.encode 3 2 mixedData mixedStripe ∧
      ¬ForceSealed .smallest sampleRDP.encode 3 2 mixedData mixedStripe := by
  refine ⟨mixedStripe_mixed, ?_⟩
  rw [mixedStripe_mixed.forceSealed_iff_encoded]
  rintro ⟨-, hsame⟩
  have hnone : lackingParity .smallest sampleRDP.encode 3 2 mixedData mixedStripe 0 = 0 := by
    apply Finset.sum_eq_zero
    intro j _
    have hindex : sampleRDP.encode (Pi.single j (mixedData j)) 0 0 0 32 = 0 := rfl
    split_ifs
    · exact hindex
    · rfl
  have hbyte := hsame 0 (by decide) rfl 1 (by decide)
  rw [hnone, add_zero] at hbyte
  revert hbyte
  decide +kernel

end MemEC.Server
