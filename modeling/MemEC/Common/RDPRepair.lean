import MemEC.Common.RDPDecode

/-!
# RDP restores what is lost

`Repaired` says which symbols of the two lost columns are right already. One
iteration of the decoder adds a row to them when the walk stands on a diagonal
of which a single symbol is missing, and `WalksTo` says where the walk stands
after `n` iterations.
-/

namespace MemEC.Common

open MemEC.Lib

variable {cfg : GlobalConfig}

/-- A sum without one of its terms. -/
theorem sum_except {s : Finset ℕ} {x : ℕ} (hx : x ∈ s) (f : ℕ → Memory) :
    (∑ i ∈ s, if i = x then 0 else f i) = (∑ i ∈ s, f i) + f x := by
  have hone : (∑ i ∈ s, if i = x then f i else 0) = f x := by
    rw [Finset.sum_ite_eq' s x f, if_pos hx]
  have hall : (∑ i ∈ s, if i = x then 0 else f i) + f x = ∑ i ∈ s, f i := by
    rw [← hone, ← Finset.sum_add_distrib]
    apply Finset.sum_congr rfl
    intro i _
    split_ifs <;> simp
  rw [← hall, Memory.add_add_cancel_right]

namespace RDPCoding

variable {c : RDPCoding cfg} {w : Repair} {chunks full : ℕ → Memory}

/-! ## One iteration -/

/-- What the loop over the columns has gathered after `n` of them. -/
theorem symbol_gather (hne : w.chunkToRRepair ≠ w.chunkToDRepair) (hk : c.k < c.p)
    (hD : w.chunkToDRepair ≤ c.k) (hdidx : w.didxToRepair < c.p)
    (hsidx : w.sidxToRepair = (w.didxToRepair + c.p - w.chunkToDRepair) % c.p) (i j : ℕ) :
    ∀ n ≤ c.k + 1, c.symbol j ((List.range n).foldl (c.gatherSymbol w) chunks i) =
      c.symbol j (chunks i) +
      (if i = w.chunkToDRepair ∧ j = w.sidxToRepair then
        ∑ x ∈ Finset.range n, if x = w.chunkToDRepair then 0
          else c.column (chunks x) ((w.didxToRepair + c.p - x) % c.p)
      else if i = w.chunkToRRepair ∧ j = w.sidxToRepair then
        ∑ x ∈ Finset.range n, if x = w.chunkToRRepair then 0
          else if x = w.chunkToDRepair then 0 else c.symbol w.sidxToRepair (chunks x)
      else 0) := by
  intro n hn
  induction n generalizing i j with
  | zero => simp
  | succ n ih =>
    have ih' := fun i j => ih i j (by omega)
    rw [List.range_succ, List.foldl_append, List.foldl_cons, List.foldl_nil]
    set gathered := (List.range n).foldl (c.gatherSymbol w) chunks with hgathered
    unfold gatherSymbol
    by_cases hnD : n = w.chunkToDRepair
    · rw [if_pos hnD, ih', Finset.sum_range_succ, Finset.sum_range_succ, if_pos hnD, if_pos hnD,
        ite_self, add_zero, add_zero]
    · have hrow : (w.didxToRepair + c.p - n) % c.p ≠ w.sidxToRepair := by
        have hmod : (w.didxToRepair + c.p - n) % c.p < c.p := Nat.mod_lt _ (by omega)
        have hmod' : w.sidxToRepair < c.p := hsidx ▸ Nat.mod_lt _ (by omega)
        have hon := (diagonal_iff (x := n) (by omega) hmod hdidx).mpr rfl
        have hon' := (diagonal_iff (x := w.chunkToDRepair) (by omega) hmod' hdidx).mpr hsidx
        intro heq
        rw [heq] at hon
        exact hnD (Nat.ModEq.eq_of_lt_of_lt
          (Nat.ModEq.add_right_cancel' w.sidxToRepair (hon.trans hon'.symm)) (by omega) (by omega))
      -- The sources are not among the two symbols that are being gathered.
      have hsource : ∀ r, r ≠ w.sidxToRepair → c.symbol r (gathered n) = c.symbol r (chunks n) := by
        intro r hr
        rw [ih', if_neg fun h => hr h.2, if_neg fun h => hr h.2, add_zero]
      have hdiag : ∀ i j, c.symbol j ((if (w.didxToRepair + c.p - n) % c.p ≠ c.p - 1 then
          c.xorChunks gathered w.chunkToDRepair w.sidxToRepair n
            ((w.didxToRepair + c.p - n) % c.p) else gathered) i) =
          c.symbol j (gathered i) + if i = w.chunkToDRepair ∧ j = w.sidxToRepair then
            c.column (chunks n) ((w.didxToRepair + c.p - n) % c.p) else 0 := by
        intro i j
        by_cases hlast : (w.didxToRepair + c.p - n) % c.p = c.p - 1
        · rw [if_neg (not_not.mpr hlast), column, if_pos hlast, ite_self, add_zero]
        · rw [if_pos hlast, c.symbol_xorChunks, hsource _ hrow, column, if_neg hlast]
      rw [if_neg hnD]
      by_cases hnR : n = w.chunkToRRepair
      · rw [if_pos hnR, hdiag, ih', Finset.sum_range_succ, Finset.sum_range_succ, if_neg hnD,
          if_pos hnR, add_zero, add_assoc]
        split_ifs <;> simp
      · have hsource' : c.symbol w.sidxToRepair ((if (w.didxToRepair + c.p - n) % c.p ≠ c.p - 1 then
            c.xorChunks gathered w.chunkToDRepair w.sidxToRepair n
              ((w.didxToRepair + c.p - n) % c.p) else gathered) n) =
            c.symbol w.sidxToRepair (chunks n) := by
          rw [hdiag, if_neg fun h => hnD h.1, add_zero, ih', if_neg fun h => hnD h.1,
            if_neg fun h => hnR h.1, add_zero]
        rw [if_neg hnR, c.symbol_xorChunks, hsource', hdiag, ih', Finset.sum_range_succ,
          Finset.sum_range_succ, if_neg hnD, if_neg hnR, if_neg hnD, add_assoc, add_assoc]
        congr 1
        by_cases hiD : i = w.chunkToDRepair ∧ j = w.sidxToRepair
        · have hiR : ¬ (i = w.chunkToRRepair ∧ j = w.sidxToRepair) := fun h =>
            hne (h.1.symm.trans hiD.1)
          rw [if_pos hiD, if_pos hiD, if_pos hiD, if_neg hiR, add_zero]
        · rw [if_neg hiD, if_neg hiD, if_neg hiD, zero_add]
          split_ifs <;> simp

/-- The symbols of the two lost columns in the rows `done` are those of the stripe `full`, and the
others are still zero. -/
structure Repaired (c : RDPCoding cfg) (full : ℕ → Memory) (lost₀ lost₁ : ℕ) (done : ℕ → Prop)
    (chunks : ℕ → Memory) : Prop where
  there : ∀ i < c.k + 2, ∀ j < c.p - 1, (i ≠ lost₀ ∧ i ≠ lost₁) ∨ done j →
    c.symbol j (chunks i) = c.symbol j (full i)
  lost : ∀ i j, (i = lost₀ ∨ i = lost₁) → j < c.p - 1 → ¬ done j → c.symbol j (chunks i) = 0

/-- The equations of the code: the rows and the diagonals of a stripe. -/
structure IsStripe (c : RDPCoding cfg) (full : ℕ → Memory) : Prop where
  row : ∀ j < c.p - 1, ∑ x ∈ Finset.range (c.k + 1), c.symbol j (full x) = 0
  diagonal : ∀ i < c.p - 1, c.symbol i (full (c.k + 1)) =
    ∑ x ∈ Finset.range (c.k + 1), c.column (full x) ((i + c.p - x) % c.p)

/-- Where an iteration can recover its two symbols: the other lost column has its symbol on the
diagonal in the row that is not there, or in one that is done. -/
structure Ready (c : RDPCoding cfg) (done : ℕ → Prop) (w : Repair) : Prop where
  didx_lt : w.didxToRepair < c.p - 1
  sidx_lt : w.sidxToRepair < c.p - 1
  sidx_eq : w.sidxToRepair = (w.didxToRepair + c.p - w.chunkToDRepair) % c.p
  new : ¬ done w.sidxToRepair
  other : (w.didxToRepair + c.p - w.chunkToRRepair) % c.p = c.p - 1 ∨
    done ((w.didxToRepair + c.p - w.chunkToRRepair) % c.p)

theorem Repaired.swap {lost₀ lost₁ : ℕ} {done : ℕ → Prop}
    (h : Repaired c full lost₀ lost₁ done chunks) : Repaired c full lost₁ lost₀ done chunks where
  there i hi j hj hthere := h.there i hi j hj (hthere.imp_left And.symm)
  lost i j hlost := h.lost i j hlost.symm

/-- One iteration recovers the row of the walk. -/
theorem Repaired.step {done : ℕ → Prop} (hk : c.k < c.p) (hfull : IsStripe c full)
    (hne : w.chunkToRRepair ≠ w.chunkToDRepair) (hR : w.chunkToRRepair ≤ c.k)
    (hD : w.chunkToDRepair ≤ c.k) (hw : Ready c done w)
    (h : Repaired c full w.chunkToRRepair w.chunkToDRepair done chunks) :
    Repaired c full w.chunkToRRepair w.chunkToDRepair (fun r => done r ∨ r = w.sidxToRepair)
      (c.repairSymbols w chunks) := by
  have hsidx := hw.sidx_lt
  have hdidx := hw.didx_lt
  have hgather : ∀ i j, c.symbol j ((List.range (c.k + 1)).foldl (c.gatherSymbol w) chunks i) = _ :=
    fun i j => symbol_gather hne hk hD (by omega) hw.sidx_eq i j (c.k + 1) le_rfl
  have hrepair : ∀ i j, c.symbol j (c.repairSymbols w chunks i) =
      c.symbol j ((c.xorChunks ((List.range (c.k + 1)).foldl (c.gatherSymbol w) chunks)
        w.chunkToDRepair w.sidxToRepair (c.k + 1) w.didxToRepair) i) +
        if i = w.chunkToRRepair ∧ j = w.sidxToRepair then
          c.symbol w.sidxToRepair ((c.xorChunks ((List.range (c.k + 1)).foldl (c.gatherSymbol w)
            chunks) w.chunkToDRepair w.sidxToRepair (c.k + 1) w.didxToRepair) w.chunkToDRepair)
        else 0 := fun i j => c.symbol_xorChunks _ _ _ _ _ _ _
  -- The symbol that is recovered on its diagonal.
  have hrowD : c.symbol w.sidxToRepair ((c.xorChunks ((List.range (c.k + 1)).foldl
      (c.gatherSymbol w) chunks) w.chunkToDRepair w.sidxToRepair (c.k + 1) w.didxToRepair)
        w.chunkToDRepair) = c.symbol w.sidxToRepair (full w.chunkToDRepair) := by
    have hparity : c.symbol w.didxToRepair ((List.range (c.k + 1)).foldl (c.gatherSymbol w)
        chunks (c.k + 1)) = c.symbol w.didxToRepair (full (c.k + 1)) := by
      rw [hgather, if_neg (by omega), if_neg (by omega), add_zero]
      exact h.there _ (by omega) _ hdidx (Or.inl ⟨by omega, by omega⟩)
    have hcolumns : (∑ x ∈ Finset.range (c.k + 1), if x = w.chunkToDRepair then 0
        else c.column (chunks x) ((w.didxToRepair + c.p - x) % c.p)) =
        ∑ x ∈ Finset.range (c.k + 1), if x = w.chunkToDRepair then 0
          else c.column (full x) ((w.didxToRepair + c.p - x) % c.p) := by
      apply Finset.sum_congr rfl
      intro x hx
      rw [Finset.mem_range] at hx
      have hmod : (w.didxToRepair + c.p - x) % c.p < c.p := Nat.mod_lt _ (by omega)
      by_cases hxD : x = w.chunkToDRepair
      · rw [if_pos hxD, if_pos hxD]
      · rw [if_neg hxD, if_neg hxD]
        unfold column
        split_ifs with hlast
        · rfl
        · apply h.there x (by omega) _ (by omega)
          by_cases hxR : x = w.chunkToRRepair
          · subst hxR
            exact Or.inr (hw.other.resolve_left hlast)
          · exact Or.inl ⟨hxR, hxD⟩
    have hself : c.column (full w.chunkToDRepair)
        ((w.didxToRepair + c.p - w.chunkToDRepair) % c.p) =
        c.symbol w.sidxToRepair (full w.chunkToDRepair) := by
      rw [← hw.sidx_eq, column, if_neg (by omega)]
    rw [c.symbol_xorChunks, if_pos ⟨rfl, rfl⟩, hparity, hgather, if_pos ⟨rfl, rfl⟩,
      h.lost _ _ (Or.inr rfl) hsidx hw.new, zero_add, hcolumns,
      sum_except (Finset.mem_range.mpr (by omega)), hself, hfull.diagonal _ hdidx]
    rw [add_right_comm, Memory.add_self, zero_add]
  -- The symbol that is recovered in its row.
  have hrowR : c.symbol w.sidxToRepair (c.repairSymbols w chunks w.chunkToRRepair) =
      c.symbol w.sidxToRepair (full w.chunkToRRepair) := by
    have hsymbols : (∑ x ∈ Finset.range (c.k + 1), if x = w.chunkToRRepair then 0
        else if x = w.chunkToDRepair then 0 else c.symbol w.sidxToRepair (chunks x)) =
        ∑ x ∈ Finset.range (c.k + 1), if x = w.chunkToRRepair then 0
          else if x = w.chunkToDRepair then 0 else c.symbol w.sidxToRepair (full x) := by
      apply Finset.sum_congr rfl
      intro x hx
      rw [Finset.mem_range] at hx
      split_ifs with hxR hxD
      · rfl
      · rfl
      · exact h.there x (by omega) _ hsidx (Or.inl ⟨hxR, hxD⟩)
    rw [hrepair, if_pos ⟨rfl, rfl⟩, hrowD, c.symbol_xorChunks, if_neg fun h => hne h.1, add_zero,
      hgather, if_neg fun h => hne h.1, if_pos ⟨rfl, rfl⟩, h.lost _ _ (Or.inl rfl) hsidx hw.new,
      zero_add, hsymbols, sum_except (Finset.mem_range.mpr (by omega)),
      sum_except (Finset.mem_range.mpr (by omega)), hfull.row _ hsidx, if_neg hne, zero_add]
    rw [add_right_comm, Memory.add_self, zero_add]
  have hkeep : ∀ i j, ¬ ((i = w.chunkToRRepair ∨ i = w.chunkToDRepair) ∧ j = w.sidxToRepair) →
      c.symbol j (c.repairSymbols w chunks i) = c.symbol j (chunks i) := by
    intro i j hij
    have hiR : ¬ (i = w.chunkToRRepair ∧ j = w.sidxToRepair) := fun h => hij ⟨Or.inl h.1, h.2⟩
    have hiD : ¬ (i = w.chunkToDRepair ∧ j = w.sidxToRepair) := fun h => hij ⟨Or.inr h.1, h.2⟩
    rw [hrepair, if_neg hiR, c.symbol_xorChunks, if_neg hiD, hgather, if_neg hiD, if_neg hiR,
      add_zero, add_zero, add_zero]
  constructor
  · intro i hi j hj hthere
    by_cases hij : (i = w.chunkToRRepair ∨ i = w.chunkToDRepair) ∧ j = w.sidxToRepair
    · obtain ⟨rfl | rfl, rfl⟩ := hij
      · exact hrowR
      · rw [hrepair, if_neg fun h => hne h.1.symm, add_zero]
        exact hrowD
    · rw [hkeep i j hij]
      apply h.there i hi j hj
      rcases hthere with hothers | hdone | hnew
      · exact Or.inl hothers
      · exact Or.inr hdone
      · left
        constructor
        · exact fun heq => hij ⟨Or.inl heq, hnew⟩
        · exact fun heq => hij ⟨Or.inr heq, hnew⟩
  · intro i j hlost hj hnot
    rw [hkeep i j fun hij => hnot (Or.inr hij.2)]
    exact h.lost i j hlost hj fun hdone => hnot (Or.inl hdone)

/-! ## The walk -/

section Walk

variable {p : ℕ}

theorem Repair.sidx_eq {didx chunk : ℕ} (hp : p ≤ 2 ^ 24 + 1) (hdidx : didx < p)
    (hchunk : chunk < p) : Repair.sidx p didx chunk = (didx + p - chunk) % p := by
  unfold Repair.sidx
  rw [u32_eq (by omega), sub32_eq (by omega) (by omega)]

theorem natCast_diagonal {x i : ℕ} (hx : x ≤ p) :
    (((i + p - x) % p : ℕ) : ZMod p) = i - x := by
  rw [ZMod.natCast_mod, Nat.cast_sub (by omega), Nat.cast_add, ZMod.natCast_self, add_zero]

/-- Where the walk from the diagonal next to `r` stands after `n` iterations. -/
structure WalksTo (p r d n : ℕ) (w : Repair) : Prop where
  rRepair : w.chunkToRRepair = r
  dRepair : w.chunkToDRepair = d
  didx_lt : w.didxToRepair < p - 1
  sidx_eq : w.sidxToRepair = (w.didxToRepair + p - d) % p
  sidx : (w.sidxToRepair : ZMod p) = -1 + (n + 1 : ℕ) * ((r : ZMod p) - d)

variable {r d n : ℕ} {w : Repair}

theorem WalksTo.sidx_lt (hpos : 0 < p) (h : WalksTo p r d n w) : w.sidxToRepair < p := by
  rw [h.sidx_eq]
  exact Nat.mod_lt _ hpos

theorem walksTo_start (hp : p ≤ 2 ^ 24 + 1) (hpos : 0 < r) (hr : r < p) (hd : d < p) :
    WalksTo p r d 0 (Repair.start p r d) := by
  have hdidx : sub32 r 1 = r - 1 := sub32_eq (by omega) (by omega)
  refine ⟨rfl, rfl, ?_, ?_, ?_⟩
  · change sub32 r 1 < p - 1
    omega
  · change Repair.sidx p (sub32 r 1) d = (sub32 r 1 + p - d) % p
    rw [hdidx, Repair.sidx_eq hp (by omega) hd]
  · change ((Repair.sidx p (sub32 r 1) d : ℕ) : ZMod p) = _
    rw [hdidx, Repair.sidx_eq hp (by omega) hd, natCast_diagonal (by omega), Nat.cast_sub hpos]
    push_cast
    ring

/-- The walk goes on, or starts once more with the columns exchanged. -/
theorem WalksTo.next (hp : p ≤ 2 ^ 24 + 1) (hd : d < p) (h : WalksTo p r d n w) :
    if (r : ZMod p) + (n + 1 : ℕ) * ((r : ZMod p) - d) = 0 then w.next p = Repair.start p d r
    else WalksTo p r d (n + 1) (w.next p) := by
  have hpos : 0 < p := by omega
  have hcast : (((w.chunkToRRepair + w.sidxToRepair) % p : ℕ) : ZMod p) =
      -1 + (r + (n + 1 : ℕ) * ((r : ZMod p) - d)) := by
    rw [ZMod.natCast_mod, Nat.cast_add, h.sidx, h.rRepair]
    ring
  have hmod : (w.chunkToRRepair + w.sidxToRepair) % p < p := Nat.mod_lt _ hpos
  have hmiss : (w.chunkToRRepair + w.sidxToRepair) % p = p - 1 ↔
      (r : ZMod p) + (n + 1 : ℕ) * ((r : ZMod p) - d) = 0 := by
    constructor
    · intro heq
      rw [heq, natCast_pred hpos] at hcast
      linear_combination -hcast
    · intro h0
      rw [h0, add_zero, ← natCast_pred hpos] at hcast
      exact natCast_inj_of_lt hmod (by omega) hcast
  unfold Repair.next
  dsimp only
  split_ifs with h0 h1 h2
  · rw [h.dRepair, h.rRepair]
  · exact absurd (hmiss.mpr h0) h1
  · exact absurd (hmiss.mp h2) h0
  · refine ⟨h.rRepair, h.dRepair, by dsimp only; omega, ?_, ?_⟩
    · dsimp only
      rw [Repair.sidx_eq hp hmod (h.dRepair ▸ hd), h.dRepair]
    · dsimp only
      rw [Repair.sidx_eq hp hmod (h.dRepair ▸ hd), h.dRepair, natCast_diagonal hd.le, hcast]
      push_cast
      ring

/-- The symbol of the other lost column on the diagonal stands in the row before. -/
theorem WalksTo.other (hr : r < p) (hd : d < p) (h : WalksTo p r d n w) :
    (((w.didxToRepair + p - w.chunkToRRepair) % p : ℕ) : ZMod p) =
      -1 + (n : ℕ) * ((r : ZMod p) - d) := by
  have hsidx := h.sidx
  rw [h.sidx_eq, natCast_diagonal hd.le] at hsidx
  rw [h.rRepair, natCast_diagonal hr.le]
  push_cast at hsidx
  linear_combination hsidx

/-! ## The whole walk -/

/-- The rows that are done after `n` iterations, when the walk turns round after `turn` of them. -/
def DoneAfter (p r d turn n row : ℕ) : Prop :=
  Visited ((r : ZMod p) - (d : ZMod p)) (min n turn) row ∨
    Visited (-((r : ZMod p) - (d : ZMod p))) (n - turn) row

/-- Where the walk stands after `n` iterations. -/
def StandsAt (p r d turn n : ℕ) (w : Repair) : Prop :=
  (n < turn ∧ WalksTo p r d n w) ∨ (turn ≤ n ∧ 0 < d ∧ WalksTo p d r (n - turn) w)

/-- When the walk turns round. -/
structure TurnsAt (p r d turn : ℕ) : Prop where
  ne : (r : ZMod p) - d ≠ 0
  pos : 0 < turn
  lt : turn < p
  mul : (turn : ZMod p) * ((r : ZMod p) - d) = -r
  r_lt : r < p
  d_lt : d < p

variable {turn : ℕ}

theorem standsAt_start (hp : p ≤ 2 ^ 24 + 1) (h : TurnsAt p r d turn) (hpos : 0 < r) :
    StandsAt p r d turn 0 (Repair.start p r d) :=
  Or.inl ⟨h.pos, walksTo_start hp hpos h.r_lt h.d_lt⟩

variable [Fact p.Prime]

theorem exists_turnsAt (hpos : 0 < r) (hr : r < p) (hd : d < p) (hne : r ≠ d) :
    ∃ turn, TurnsAt p r d turn := by
  have hp : 0 < p := by omega
  have : NeZero p := ⟨hp.ne'⟩
  have hsub : (r : ZMod p) - d ≠ 0 := by
    intro h0
    exact hne (natCast_inj_of_lt hr hd (sub_eq_zero.mp h0))
  have hmul : ((-(r : ZMod p) / ((r : ZMod p) - d)).val : ZMod p) * ((r : ZMod p) - d) = -r := by
    rw [ZMod.natCast_zmod_val, div_mul_cancel₀ _ hsub]
  refine ⟨_, hsub, Nat.pos_of_ne_zero fun h0 => ?_, ZMod.val_lt _, hmul, hr, hd⟩
  rw [h0, Nat.cast_zero, zero_mul] at hmul
  have hzero : (r : ZMod p) = (0 : ℕ) := by
    rw [Nat.cast_zero]
    linear_combination hmul
  have := natCast_inj_of_lt hr hp hzero
  omega

/-- The walk turns round before the last iteration unless column `0` is lost. -/
theorem TurnsAt.d_pos (h : TurnsAt p r d turn) (hlt : turn + 1 < p) : 0 < d := by
  apply Nat.pos_of_ne_zero
  rintro rfl
  have hmul := h.mul
  have hne := h.ne
  rw [Nat.cast_zero, sub_zero] at hmul hne
  have hall : ((turn + 1 : ℕ) : ZMod p) * r = (0 : ℕ) * r := by
    push_cast
    linear_combination hmul
  have := natCast_mul_inj hne hlt (by omega) hall
  omega

theorem StandsAt.next (hp : p ≤ 2 ^ 24 + 1) (ht : TurnsAt p r d turn) (hn : n + 2 < p)
    (h : StandsAt p r d turn n w) : StandsAt p r d turn (n + 1) (w.next p) := by
  have hmul := ht.mul
  rcases h with ⟨hlt, hw⟩ | ⟨hge, hpos, hw⟩
  · have hnext := hw.next hp ht.d_lt
    by_cases hturn : n + 1 = turn
    · subst hturn
      rw [if_pos (by rw [hmul, add_neg_cancel])] at hnext
      have hd := ht.d_pos (by omega)
      refine Or.inr ⟨le_rfl, hd, ?_⟩
      rw [hnext, Nat.sub_self]
      exact walksTo_start hp hd ht.d_lt ht.r_lt
    · rw [if_neg] at hnext
      · exact Or.inl ⟨by omega, hnext⟩
      · intro h0
        have heq : ((n + 1 : ℕ) : ZMod p) * ((r : ZMod p) - d) = turn * ((r : ZMod p) - d) := by
          linear_combination h0 - hmul
        exact hturn (natCast_mul_inj ht.ne (by omega) ht.lt heq)
  · have hnext := hw.next hp ht.r_lt
    rw [if_neg] at hnext
    · refine Or.inr ⟨by omega, hpos, ?_⟩
      rwa [Nat.sub_add_comm hge]
    · intro h0
      have hall : ((n + 2 : ℕ) : ZMod p) * ((r : ZMod p) - d) = (0 : ℕ) * ((r : ZMod p) - d) := by
        rw [show n + 2 = turn + (n - turn + 1) + 1 by omega]
        push_cast at h0 ⊢
        linear_combination hmul - h0
      have := natCast_mul_inj ht.ne hn (by omega) hall
      omega

/-- The iteration recovers one row more. -/
theorem StandsAt.doneAfter (h : StandsAt p r d turn n w) {row : ℕ} (hrow : row < p) :
    DoneAfter p r d turn (n + 1) row ↔
      DoneAfter p r d turn n row ∨ row = w.sidxToRepair := by
  have hp : 0 < p := by omega
  have hsame : ∀ {x : ZMod p}, (w.sidxToRepair : ZMod p) = x → w.sidxToRepair < p →
      ((row : ZMod p) = x ↔ row = w.sidxToRepair) := by
    rintro x rfl hlt
    constructor
    · exact natCast_inj_of_lt hrow hlt
    · rintro rfl
      rfl
  unfold DoneAfter
  rcases h with ⟨hlt, hw⟩ | ⟨hge, -, hw⟩
  · rw [Nat.min_eq_left hlt.le, Nat.min_eq_left (by omega), Nat.sub_eq_zero_of_le hlt.le,
      Nat.sub_eq_zero_of_le (by omega), visited_succ, hsame hw.sidx (hw.sidx_lt hp)]
    tauto
  · have hsidx := hw.sidx
    rw [← neg_sub (r : ZMod p) d] at hsidx
    rw [Nat.min_eq_right hge, Nat.min_eq_right (by omega), Nat.sub_add_comm hge, visited_succ,
      hsame hsidx (hw.sidx_lt hp)]
    tauto

theorem StandsAt.ready (ht : TurnsAt c.p r d turn) (hn : n + 1 < c.p)
    [Fact c.p.Prime] (h : StandsAt c.p r d turn n w) :
    Ready c (DoneAfter c.p r d turn n) w := by
  have hp : 0 < c.p := by omega
  rcases h with ⟨hlt, hw⟩ | ⟨hge, hpos, hw⟩
  · have hsidx := hw.sidx_lt hp
    have hne := ne_pred_of_step ht.ne hn hw.sidx
    refine ⟨hw.didx_lt, by omega, hw.dRepair.symm ▸ hw.sidx_eq, ?_, ?_⟩
    · rintro (hdone | hdone)
      · rw [Nat.min_eq_left hlt.le] at hdone
        exact not_visited_next ht.ne hn hw.sidx hdone
      · rw [Nat.sub_eq_zero_of_le hlt.le] at hdone
        exact not_visited_zero _ hdone
    · have hother := previous_visited (Nat.mod_lt _ hp) (hw.other ht.r_lt ht.d_lt)
      apply hother.imp_right
      intro hdone
      rw [← Nat.min_eq_left hlt.le] at hdone
      exact Or.inl hdone
  · have hsidx := hw.sidx_lt hp
    have hstep := hw.sidx
    have hback := hw.other ht.d_lt ht.r_lt
    rw [← neg_sub (r : ZMod c.p) d] at hstep hback
    have hne := ne_pred_of_step (neg_ne_zero.mpr ht.ne) (by omega) hstep
    refine ⟨hw.didx_lt, by omega, hw.dRepair.symm ▸ hw.sidx_eq, ?_, ?_⟩
    · rintro (hdone | hdone)
      · rw [Nat.min_eq_right hge] at hdone
        exact not_visited_opposite ht.ne (by omega) hstep hdone
      · exact not_visited_next (neg_ne_zero.mpr ht.ne) (by omega) hstep hdone
    · exact (previous_visited (Nat.mod_lt _ hp) hback).imp_right Or.inr

end Walk

/-! ## The decoder -/

theorem Repaired.congr {lost₀ lost₁ : ℕ} {done done' : ℕ → Prop}
    (h : Repaired c full lost₀ lost₁ done chunks) (hdone : ∀ r < c.p - 1, (done r ↔ done' r)) :
    Repaired c full lost₀ lost₁ done' chunks where
  there i hi j hj hthere := h.there i hi j hj (hthere.imp_right (hdone j hj).mpr)
  lost i j hlost hj hnot := h.lost i j hlost hj fun hd => hnot ((hdone j hj).mp hd)

/-- The outer loop of the decoder. -/
theorem Repaired.run [Fact c.p.Prime] {r d turn : ℕ} (hp : c.p ≤ 2 ^ 24 + 1) (hk : c.k < c.p)
    (hfull : IsStripe c full) (ht : TurnsAt c.p r d turn) (hr : r ≤ c.k) (hd : d ≤ c.k) :
    ∀ (m n : ℕ) (w : Repair) (chunks : ℕ → Memory), n + m = c.p - 1 →
      (0 < m → StandsAt c.p r d turn n w) →
      Repaired c full r d (DoneAfter c.p r d turn n) chunks →
      Repaired c full r d (DoneAfter c.p r d turn (c.p - 1)) (c.repair m w chunks) := by
  intro m
  induction m with
  | zero =>
    intro n w chunks hn _ h
    obtain rfl : n = c.p - 1 := by omega
    exact h
  | succ m ih =>
    intro n w chunks hn hw h
    have hstands := hw (Nat.succ_pos m)
    have hready := hstands.ready ht (by omega)
    have hrd : r ≠ d := by
      rintro rfl
      exact ht.ne (sub_self _)
    have hstep : Repaired c full r d
        (fun row => DoneAfter c.p r d turn n row ∨ row = w.sidxToRepair)
        (c.repairSymbols w chunks) := by
      rcases hstands with ⟨-, hwalk⟩ | ⟨-, -, hwalk⟩
      · obtain ⟨rfl, rfl⟩ : w.chunkToRRepair = r ∧ w.chunkToDRepair = d :=
          ⟨hwalk.rRepair, hwalk.dRepair⟩
        exact h.step hk hfull hrd hr hd hready
      · obtain ⟨rfl, rfl⟩ : w.chunkToRRepair = d ∧ w.chunkToDRepair = r :=
          ⟨hwalk.rRepair, hwalk.dRepair⟩
        exact (h.swap.step hk hfull hrd.symm hd hr hready).swap
    apply ih (n + 1) _ _ (by omega)
    · intro hm
      exact hstands.next hp ht (by omega)
    · exact hstep.congr fun row hrow => (hstands.doneAfter (by omega)).symm

end RDPCoding

end MemEC.Common
