import MemEC.Common.StripeList
import MemEC.Lib.Loops

/-!
# The members of the stripe lists

Chunk `c` of a list is at the server of rank `c` among the servers marked in the
bitmap of the data servers, or of rank `c - k` in the other one. Marking only
free servers gives the two bitmaps of a list `k` and `n - k` servers and none
twice; every array and every answer is then read off from the ranks.
-/

namespace MemEC.Common

open MemEC.Lib

namespace BitmaskArray

variable {b : BitmaskArray} {entry entry' bit bit' : ℕ}

theorem index_inj (hbit : bit < b.size) (hbit' : bit' < b.size)
    (h : entry * b.size + bit = entry' * b.size + bit') : entry = entry' ∧ bit = bit' := by
  have hentry : ∀ {e x : ℕ}, x < b.size → (e * b.size + x) / b.size = e := by
    intro e x hx
    rw [mul_comm, Nat.mul_add_div (by omega), Nat.div_eq_of_lt hx, add_zero]
  have heq : entry = entry' :=
    (hentry hbit).symm.trans ((congrArg (· / b.size) h).trans (hentry hbit'))
  subst heq
  exact ⟨rfl, Nat.add_left_cancel h⟩

theorem mem_members : bit ∈ b.members entry ↔ bit < b.size ∧ b.check entry bit = true := by
  rw [members, Finset.mem_filter, Finset.mem_range]

theorem check_set (hbit : bit < b.size) (hbit' : bit' < b.size) :
    (b.set entry bit).check entry' bit' = true ↔
      entry' = entry ∧ bit' = bit ∨ b.check entry' bit' = true := by
  unfold check set
  by_cases h : entry' * b.size + bit' = entry * b.size + bit
  · obtain ⟨rfl, rfl⟩ := index_inj hbit' hbit h
    simp
  · have hne : ¬ (entry' = entry ∧ bit' = bit) := by
      rintro ⟨rfl, rfl⟩
      exact h rfl
    simp only [Function.update_of_ne h, hne, false_or]

theorem members_set (hbit : bit < b.size) :
    (b.set entry bit).members entry = insert bit (b.members entry) := by
  ext x
  rw [Finset.mem_insert, mem_members, mem_members]
  constructor
  · rintro ⟨hx, hcheck⟩
    rcases (check_set hbit hx).mp hcheck with ⟨-, rfl⟩ | hold
    · exact Or.inl rfl
    · exact Or.inr ⟨hx, hold⟩
  · rintro (rfl | ⟨hx, hold⟩)
    · exact ⟨hbit, (check_set hbit hbit).mpr (Or.inl ⟨rfl, rfl⟩)⟩
    · exact ⟨hx, (check_set hbit hx).mpr (Or.inr hold)⟩

theorem members_set_of_ne (hbit : bit < b.size) (hne : entry' ≠ entry) :
    (b.set entry bit).members entry' = b.members entry' := by
  ext x
  rw [mem_members, mem_members]
  apply and_congr_right
  intro hx
  rw [check_set hbit hx, or_iff_right]
  exact fun h => hne h.1

end BitmaskArray

namespace StripeList

variable {T : Type} {s : StripeList T} {params : StripeListParams T}

/-! ## Free servers -/

/-- The parity and data servers that list `i` has got. -/
structure Marked (data parity : BitmaskArray) (i p d : ℕ) : Prop where
  cardParity : (parity.members i).card = p
  cardData : (data.members i).card = d
  disjoint : Disjoint (data.members i) (parity.members i)

/-- What is marked depends on the members of both bitmaps alone. -/
theorem Marked.congr {data data' parity parity' : BitmaskArray} {i p d : ℕ}
    (h : Marked data parity i p d) (hdata : data'.members i = data.members i)
    (hparity : parity'.members i = parity.members i) : Marked data' parity' i p d := by
  constructor
  · rw [hparity]
    exact h.cardParity
  · rw [hdata]
    exact h.cardData
  · rw [hdata, hparity]
    exact h.disjoint

/-- The bitmaps have a bit for each server. -/
def Sized (s : StripeList T) : Prop :=
  s.data.size = s.numServers ∧ s.parity.size = s.numServers

theorem free_iff (hs : s.Sized) {i j : ℕ} (hj : j < s.numServers) :
    s.Free i j ↔ j ∉ s.data.members i ∧ j ∉ s.parity.members i := by
  rw [BitmaskArray.mem_members, BitmaskArray.mem_members, hs.1, hs.2]
  simp [Free, hj]

/-- Fewer servers are marked than there are, so one is free. -/
theorem Marked.exists_free {i p d : ℕ} (hs : s.Sized) (h : Marked s.data s.parity i p d)
    (hlt : p + d < s.numServers) : ∃ j < s.numServers, s.Free i j := by
  have hcard : (s.data.members i ∪ s.parity.members i).card < (Finset.range s.numServers).card := by
    rw [Finset.card_union_of_disjoint h.disjoint, h.cardData, h.cardParity, Finset.card_range]
    omega
  obtain ⟨j, hj, hfree⟩ := Finset.exists_mem_notMem_of_card_lt_card hcard
  rw [Finset.mem_union, not_or] at hfree
  have hlt := Finset.mem_range.mp hj
  exact ⟨j, hlt, (free_iff hs hlt).mpr hfree⟩

/-- `pickMin` finds a free server of the least load: none reaches the load and the count it starts
with. -/
theorem pickMin_least {i : ℕ} (hload : ∀ j, s.load j < 2 ^ 32) (hcount : ∀ j, s.count j < 2 ^ 32 - 1)
    (h : ∃ j < s.numServers, s.Free i j) : s.pickMin i < s.numServers ∧ s.Free i (s.pickMin i) ∧
      ∀ j < s.numServers, s.Free i j → s.load (s.pickMin i) ≤ s.load j := by
  have hscan : ∀ m ≤ s.numServers,
      let best := (List.range m).foldl (s.compare i) ⟨none, 2 ^ 32 - 1, 2 ^ 32 - 1⟩
      (best = ⟨none, 2 ^ 32 - 1, 2 ^ 32 - 1⟩ ∧ ∀ j < m, ¬ s.Free i j) ∨
        ∃ x < s.numServers, best = ⟨some x, s.load x, s.count x⟩ ∧ s.Free i x ∧
          ∀ j < m, s.Free i j → s.load x ≤ s.load j := by
    intro m hm
    induction m with
    | zero => exact Or.inl ⟨rfl, fun j hj => absurd hj (Nat.not_lt_zero j)⟩
    | succ m ih =>
      simp only [List.range_succ, List.foldl_append, List.foldl_cons, List.foldl_nil]
      by_cases hfree : s.Free i m
      · right
        rcases ih (by omega) with ⟨hbest, hnone⟩ | ⟨x, hx, hbest, hfreex, hleast⟩
        · have hl := hload m
          have hc := hcount m
          rw [hbest, compare, if_pos ⟨by dsimp only; omega, hfree⟩]
          refine ⟨m, by omega, rfl, hfree, fun j hj hfreej => ?_⟩
          rcases Nat.lt_succ_iff_lt_or_eq.mp hj with hlt | rfl
          · exact absurd hfreej (hnone j hlt)
          · exact le_rfl
        · rw [hbest, compare]
          dsimp only
          split_ifs with hless
          · refine ⟨m, by omega, rfl, hfree, fun j hj hfreej => ?_⟩
            rcases Nat.lt_succ_iff_lt_or_eq.mp hj with hlt | rfl
            · have hxj := hleast j hlt hfreej
              omega
            · exact le_rfl
          · refine ⟨x, hx, rfl, hfreex, fun j hj hfreej => ?_⟩
            rcases Nat.lt_succ_iff_lt_or_eq.mp hj with hlt | rfl
            · exact hleast j hlt hfreej
            · by_contra hlt
              exact hless ⟨Or.inl (by omega), hfreej⟩
      · have hsame : ∀ best, s.compare i best m = best := fun best => if_neg fun h => hfree h.2
        rw [hsame]
        rcases ih (by omega) with ⟨hbest, hnone⟩ | ⟨x, hx, hbest, hfreex, hleast⟩
        · refine Or.inl ⟨hbest, fun j hj => ?_⟩
          rcases Nat.lt_succ_iff_lt_or_eq.mp hj with hlt | rfl
          · exact hnone j hlt
          · exact hfree
        · refine Or.inr ⟨x, hx, hbest, hfreex, fun j hj hfreej => ?_⟩
          rcases Nat.lt_succ_iff_lt_or_eq.mp hj with hlt | rfl
          · exact hleast j hlt hfreej
          · exact absurd hfreej hfree
  rcases hscan s.numServers le_rfl with ⟨-, hnone⟩ | ⟨x, hx, hbest, hfree, hleast⟩
  · obtain ⟨j, hj, hfree⟩ := h
    exact absurd hfree (hnone j hj)
  · have hpick : s.pickMin i = x := by
      rw [pickMin, hbest, Option.getD_some]
    rw [hpick]
    exact ⟨hx, hfree, hleast⟩

/-- What `pickRand` returns is free. -/
theorem pickRand_free {rand : ℕ → ℕ} {i fuel draws x draws' : ℕ} (hpos : 0 < s.numServers)
    (h : s.pickRand rand i fuel draws = some (x, draws')) : x < s.numServers ∧ s.Free i x := by
  induction fuel generalizing draws with
  | zero => cases h
  | succ fuel ih =>
    unfold pickRand at h
    dsimp only at h
    split_ifs at h with hfree
    · cases h
      exact ⟨Nat.mod_lt _ hpos, hfree⟩
    · exact ih h

/-- Every server is drawn again and again. -/
def Fair (rand : ℕ → ℕ) (numServers : ℕ) : Prop :=
  ∀ start, ∀ j < numServers, ∃ p ≥ start, rand p % numServers = j

/-- The loop of `pickRand` ends when a free server is drawn. -/
theorem exists_pickRand {rand : ℕ → ℕ} {i : ℕ} (distance draws : ℕ)
    (h : s.Free i (rand (draws + distance) % s.numServers)) :
    ∃ r, ∀ fuel ≥ distance + 1, s.pickRand rand i fuel draws = some r := by
  induction distance generalizing draws with
  | zero =>
    refine ⟨(rand draws % s.numServers, draws + 1), fun fuel hfuel => ?_⟩
    obtain ⟨fuel, rfl⟩ := Nat.exists_eq_add_of_le' hfuel
    exact if_pos h
  | succ distance ih =>
    obtain ⟨r, hr⟩ := ih (draws + 1) (by rwa [add_right_comm, add_assoc])
    by_cases hfree : s.Free i (rand draws % s.numServers)
    · refine ⟨(rand draws % s.numServers, draws + 1), fun fuel hfuel => ?_⟩
      obtain ⟨fuel, rfl⟩ := Nat.exists_eq_add_of_le' (show 1 ≤ fuel by omega)
      exact if_pos hfree
    · refine ⟨r, fun fuel hfuel => ?_⟩
      obtain ⟨fuel, rfl⟩ := Nat.exists_eq_add_of_le' (show 1 ≤ fuel by omega)
      exact (if_neg hfree).trans (hr fuel (by omega))

/-! ## Marking -/

/-- The array of list `i` has the server of each rank in its place. -/
def Arranged (s : StripeList T) (i : ℕ) : Prop :=
  (∀ c < s.k, s.lists i c = s.servers (ranked (s.data.members i) c)) ∧
    ∀ c < s.n - s.k, s.lists i (s.k + c) = s.servers (ranked (s.parity.members i) c)

/-- `generate` while list `i` has `p` parity and `d` data servers. -/
structure Marking (params : StripeListParams T) (i p d : ℕ) (s : StripeList T) : Prop where
  params_eq : s.toStripeListParams = params
  sized : s.Sized
  earlier : ∀ i' < i, Marked s.data s.parity i' (s.n - s.k) s.k ∧ s.Arranged i'
  here : Marked s.data s.parity i p d
  later : ∀ i', i < i' → Marked s.data s.parity i' 0 0
  load_lt : ∀ j, s.load j < 2 ^ 32
  count_le : ∀ j, s.count j ≤ i

variable {rand : ℕ → ℕ} {i p d : ℕ}

theorem Marking.n_eq (h : Marking params i p d s) : s.n = params.n :=
  congrArg StripeListParams.n h.params_eq

theorem Marking.k_eq (h : Marking params i p d s) : s.k = params.k :=
  congrArg StripeListParams.k h.params_eq

theorem Marking.numServers_eq (h : Marking params i p d s) : s.numServers = params.numServers :=
  congrArg StripeListParams.numServers h.params_eq

theorem Marking.pickMin_least (h : Marking params i p d s) (hint : i < 2 ^ 31)
    (hlt : p + d < s.numServers) : s.pickMin i < s.numServers ∧ s.Free i (s.pickMin i) ∧
      ∀ j < s.numServers, s.Free i j → s.load (s.pickMin i) ≤ s.load j := by
  apply StripeList.pickMin_least h.load_lt _ (h.here.exists_free h.sized hlt)
  intro j
  have hcount := h.count_le j
  omega

theorem Marking.pick_free (h : Marking params i p d s) (hlt : p + d < s.numServers) {fuel : ℕ}
    {r : ℕ × ℕ} (hr : s.pick rand fuel i = some r) : r.1 < s.numServers ∧ s.Free i r.1 := by
  unfold pick at hr
  split_ifs at hr with hint halgo
  · cases hr
    obtain ⟨hx, hfree, -⟩ := h.pickMin_least (by omega) hlt
    exact ⟨hx, hfree⟩
  · exact pickRand_free (by omega) hr

/-- A free server is found: by `pickMin` always, by `pickRand` when it is drawn. -/
theorem Marking.exists_pick (h : Marking params i p d s) (hlt : p + d < s.numServers)
    (hint : i < 2 ^ 31) (halgo : params.useAlgo = true ∨ Fair rand params.numServers) :
    ∃ enough r, ∀ fuel ≥ enough, s.pick rand fuel i = some r := by
  have hpick : ∀ fuel, s.pick rand fuel i = if s.useAlgo then some (s.pickMin i, s.draws)
      else s.pickRand rand i fuel s.draws := fun fuel => if_neg (Nat.not_le.mpr hint)
  simp only [hpick]
  rw [← h.params_eq] at halgo
  by_cases huse : s.useAlgo = true
  · exact ⟨0, _, fun fuel _ => if_pos huse⟩
  · obtain ⟨j, hj, hfree⟩ := h.here.exists_free h.sized hlt
    obtain ⟨q, hq, rfl⟩ := halgo.resolve_left huse s.draws j hj
    obtain ⟨distance, rfl⟩ := Nat.exists_eq_add_of_le hq
    obtain ⟨r, hr⟩ := exists_pickRand distance s.draws hfree
    exact ⟨distance + 1, r, fun fuel hfuel => (if_neg huse).trans (hr fuel hfuel)⟩

/-- A free server becomes a parity server. -/
theorem Marking.setParity (h : Marking params i p d s) {x draws : ℕ} (hx : x < s.numServers)
    (hfree : s.Free i x) :
    Marking params i (p + 1) d { s with parity := s.parity.set i x, draws } := by
  have hbit : x < s.parity.size := h.sized.2 ▸ hx
  obtain ⟨hdata, hparity⟩ := (free_iff h.sized hx).mp hfree
  have hother : ∀ i' ≠ i, (s.parity.set i x).members i' = s.parity.members i' :=
    fun i' hne => BitmaskArray.members_set_of_ne hbit hne
  refine ⟨h.params_eq, h.sized, ?_, ⟨?_, h.here.cardData, ?_⟩, ?_, h.load_lt, h.count_le⟩
  · intro i' hi'
    obtain ⟨hmarked, harranged⟩ := h.earlier i' hi'
    refine ⟨hmarked.congr rfl (hother i' hi'.ne), harranged.1, ?_⟩
    rw [hother i' hi'.ne]
    exact harranged.2
  · rw [BitmaskArray.members_set hbit, Finset.card_insert_of_notMem hparity, h.here.cardParity]
  · rw [BitmaskArray.members_set hbit, Finset.disjoint_insert_right]
    exact ⟨hdata, h.here.disjoint⟩
  · intro i' hi'
    exact (h.later i' hi').congr rfl (hother i' hi'.ne')

/-- A free server becomes a data server. -/
theorem Marking.setData (h : Marking params i p d s) {x draws : ℕ} (hx : x < s.numServers)
    (hfree : s.Free i x) :
    Marking params i p (d + 1) { s with data := s.data.set i x, draws } := by
  have hbit : x < s.data.size := h.sized.1 ▸ hx
  obtain ⟨hdata, hparity⟩ := (free_iff h.sized hx).mp hfree
  have hother : ∀ i' ≠ i, (s.data.set i x).members i' = s.data.members i' :=
    fun i' hne => BitmaskArray.members_set_of_ne hbit hne
  refine ⟨h.params_eq, h.sized, ?_, ⟨h.here.cardParity, ?_, ?_⟩, ?_, h.load_lt, h.count_le⟩
  · intro i' hi'
    obtain ⟨hmarked, harranged⟩ := h.earlier i' hi'
    refine ⟨hmarked.congr (hother i' hi'.ne) rfl, ?_, harranged.2⟩
    rw [hother i' hi'.ne]
    exact harranged.1
  · rw [BitmaskArray.members_set hbit, Finset.card_insert_of_notMem hdata, h.here.cardData]
  · rw [BitmaskArray.members_set hbit, Finset.disjoint_insert_left]
    exact ⟨hparity, h.here.disjoint⟩
  · intro i' hi'
    exact (h.later i' hi').congr (hother i' hi'.ne') rfl

/-! ## Arranging -/

/-- The loop over the servers puts those of each bitmap at consecutive places. -/
theorem arrangeServer_range (hs : s.Sized) (h : Marked s.data s.parity i (s.n - s.k) s.k) {m : ℕ}
    (hm : m ≤ s.numServers) (array : ℕ → T) :
    let acc := (List.range m).foldl (s.arrangeServer i) (array, 0, 0)
    acc.2 = (rank (s.data.members i) m, rank (s.parity.members i) m) ∧
      (∀ c < rank (s.data.members i) m, acc.1 c = s.servers (ranked (s.data.members i) c)) ∧
      ∀ c < rank (s.parity.members i) m,
        acc.1 (s.k + c) = s.servers (ranked (s.parity.members i) c) := by
  induction m with
  | zero => exact ⟨by simp, by simp, by simp⟩
  | succ m ih =>
    obtain ⟨hcounters, hdata, hparity⟩ := ih (by omega)
    have hd : m ∈ s.data.members i ↔ s.data.check i m = true := by
      rw [BitmaskArray.mem_members, hs.1]
      exact and_iff_right (by omega)
    have hp : m ∈ s.parity.members i ↔ s.parity.check i m = true := by
      rw [BitmaskArray.mem_members, hs.2]
      exact and_iff_right (by omega)
    have hrank : rank (s.data.members i) m ≤ s.k := h.cardData ▸ rank_le_card
    simp only [List.range_succ, List.foldl_append, List.foldl_cons, List.foldl_nil]
    set acc := (List.range m).foldl (s.arrangeServer i) (array, 0, 0)
    rw [rank_succ, rank_succ]
    by_cases hmd : m ∈ s.data.members i
    · have hmp : m ∉ s.parity.members i := Finset.disjoint_left.mp h.disjoint hmd
      have hlt : rank (s.data.members i) m < s.k := h.cardData ▸ rank_lt_card hmd
      rw [if_pos hmd, if_neg hmp, arrangeServer, if_pos (hd.mp hmd), hcounters]
      dsimp only
      refine ⟨rfl, ?_, ?_⟩
      · intro c hc
        rcases Nat.lt_succ_iff_lt_or_eq.mp hc with hc | rfl
        · rw [Function.update_of_ne hc.ne]
          exact hdata c hc
        · rw [Function.update_self, ranked_rank hmd]
      · intro c hc
        rw [Function.update_of_ne (by omega)]
        exact hparity c hc
    · rw [if_neg hmd, arrangeServer, if_neg fun hcheck => hmd (hd.mpr hcheck)]
      by_cases hmp : m ∈ s.parity.members i
      · rw [if_pos hmp, if_pos (hp.mp hmp), hcounters]
        dsimp only
        refine ⟨rfl, ?_, ?_⟩
        · intro c hc
          rw [Function.update_of_ne (by omega)]
          exact hdata c hc
        · intro c hc
          rcases Nat.lt_succ_iff_lt_or_eq.mp hc with hc | rfl
          · rw [Function.update_of_ne (by omega)]
            exact hparity c hc
          · rw [Function.update_self, ranked_rank hmp]
      · rw [if_neg hmp, if_neg fun hcheck => hmp (hp.mpr hcheck)]
        exact ⟨hcounters, hdata, hparity⟩

theorem arranged_arrange (hs : s.Sized) (h : Marked s.data s.parity i (s.n - s.k) s.k) :
    (s.arrange i).Arranged i := by
  obtain ⟨-, hdata, hparity⟩ := arrangeServer_range hs h le_rfl (s.lists i)
  have hall : ∀ b : BitmaskArray, b.size = s.numServers →
      rank (b.members i) s.numServers = (b.members i).card := by
    intro b hb
    apply rank_eq_card
    intro j hj
    exact hb ▸ (BitmaskArray.mem_members.mp hj).1
  rw [hall _ hs.1, h.cardData] at hdata
  rw [hall _ hs.2, h.cardParity] at hparity
  constructor
  · intro c hc
    simpa only [arrange, Function.update_self] using hdata c hc
  · intro c hc
    simpa only [arrange, Function.update_self] using hparity c hc

/-- The other arrays are not touched. -/
theorem arranged_arrange_of_ne {i' : ℕ} (hne : i' ≠ i) (h : s.Arranged i') :
    (s.arrange i).Arranged i' := by
  constructor
  · intro c hc
    simpa only [arrange, Function.update_of_ne hne] using h.1 c hc
  · intro c hc
    simpa only [arrange, Function.update_of_ne hne] using h.2 c hc

/-! ## Generating -/

theorem u32_le (x : ℕ) : u32 x ≤ x := Nat.mod_le _ _

theorem charge_load_lt {j : ℕ} (h : s.load j < 2 ^ 32) : (s.charge i).load j < 2 ^ 32 := by
  have hu : ∀ x, u32 x < 2 ^ 32 := fun x => Nat.mod_lt _ (by norm_num)
  unfold charge
  dsimp only
  by_cases hj : s.numServers ≤ j
  · rwa [if_pos hj]
  · rw [if_neg hj]
    by_cases hd : s.data.check i j = true
    · rw [if_pos hd]
      exact hu _
    · rw [if_neg hd]
      by_cases hp : s.parity.check i j = true
      · rw [if_pos hp]
        exact hu _
      · rwa [if_neg hp]

theorem charge_count_le {j : ℕ} : (s.charge i).count j ≤ s.count j + 1 := by
  unfold charge
  dsimp only
  by_cases hj : s.numServers ≤ j
  · rw [if_pos hj]
    exact Nat.le_succ _
  · rw [if_neg hj]
    by_cases hmarked : s.data.check i j = true ∨ s.parity.check i j = true
    · rw [if_pos hmarked]
      exact u32_le _
    · rw [if_neg hmarked]
      exact Nat.le_succ _

/-- The list is complete: it is arranged, and the next one has no server yet. -/
theorem Marking.finish (h : Marking params i (s.n - s.k) s.k s) :
    Marking params (i + 1) 0 0 ((s.arrange i).charge i) := by
  refine ⟨h.params_eq, h.sized, ?_, h.later (i + 1) (Nat.lt_succ_self i), ?_, ?_, ?_⟩
  · intro i' hi'
    rcases Nat.lt_succ_iff_lt_or_eq.mp hi' with hlt | rfl
    · obtain ⟨hmarked, harranged⟩ := h.earlier i' hlt
      exact ⟨hmarked, arranged_arrange_of_ne hlt.ne harranged⟩
    · exact ⟨h.here, arranged_arrange h.sized h.here⟩
  · intro i' hi'
    exact h.later i' (by omega)
  · exact fun j => charge_load_lt (h.load_lt j)
  · exact fun j => charge_count_le.trans (Nat.succ_le_succ (h.count_le j))

theorem Marking.pickParity {fuel : ℕ} (h : Marking params i p d s) (hlt : p + d < s.numServers)
    {s' : StripeList T} (hs' : s.pickParity rand fuel i = some s') :
    Marking params i (p + 1) d s' := by
  obtain ⟨r, hr, rfl⟩ := Option.map_eq_some_iff.mp hs'
  obtain ⟨hx, hfree⟩ := h.pick_free hlt hr
  exact h.setParity hx hfree

theorem Marking.pickData {fuel : ℕ} (h : Marking params i p d s) (hlt : p + d < s.numServers)
    {s' : StripeList T} (hs' : s.pickData rand fuel i = some s') :
    Marking params i p (d + 1) s' := by
  obtain ⟨r, hr, rfl⟩ := Option.map_eq_some_iff.mp hs'
  obtain ⟨hx, hfree⟩ := h.pick_free hlt hr
  exact h.setData hx hfree

/-- One list. -/
theorem Marking.generateList {fuel : ℕ} (hk : params.k ≤ params.n)
    (hn : params.n ≤ params.numServers) (h : Marking params i 0 0 s) {s' : StripeList T}
    (hs' : generateList rand fuel s i = some s') : Marking params (i + 1) 0 0 s' := by
  unfold StripeList.generateList at hs'
  simp only [Option.bind_eq_bind, Option.bind_eq_some_iff, Option.pure_def] at hs'
  obtain ⟨s₁, hs₁, s₂, hs₂, hs'⟩ := hs'
  have hparity : Marking params i (s.n - s.k) 0 s₁ := by
    apply foldlM_option_range (P := fun j s => Marking params i j 0 s) h _ hs₁
    intro j hj t t' ht ht'
    apply ht.pickParity _ ht'
    rw [h.n_eq, h.k_eq] at hj
    rw [ht.numServers_eq]
    omega
  have hdata : Marking params i (s.n - s.k) s₁.k s₂ := by
    apply foldlM_option_range (P := fun j s' => Marking params i (s.n - s.k) j s') hparity _ hs₂
    intro j hj t t' ht ht'
    apply ht.pickData _ ht'
    rw [hparity.k_eq] at hj
    rw [ht.numServers_eq, h.n_eq, h.k_eq]
    omega
  cases hs'
  apply Marking.finish
  rw [hdata.n_eq, hdata.k_eq]
  rwa [h.n_eq, h.k_eq, hparity.k_eq] at hdata

theorem Marking.exists_pickParity (h : Marking params i p d s) (hlt : p + d < s.numServers)
    (hint : i < 2 ^ 31) (halgo : params.useAlgo = true ∨ Fair rand params.numServers) :
    ∃ enough s', (∀ fuel ≥ enough, s.pickParity rand fuel i = some s') ∧
      Marking params i (p + 1) d s' := by
  obtain ⟨enough, r, hr⟩ := h.exists_pick hlt hint halgo
  have hpick : ∀ fuel ≥ enough, s.pickParity rand fuel i =
      some { s with parity := s.parity.set i r.1, draws := r.2 } := by
    intro fuel hfuel
    rw [StripeList.pickParity, hr fuel hfuel, Option.map_some]
  exact ⟨enough, _, hpick, h.pickParity hlt (hpick enough le_rfl)⟩

theorem Marking.exists_pickData (h : Marking params i p d s) (hlt : p + d < s.numServers)
    (hint : i < 2 ^ 31) (halgo : params.useAlgo = true ∨ Fair rand params.numServers) :
    ∃ enough s', (∀ fuel ≥ enough, s.pickData rand fuel i = some s') ∧
      Marking params i p (d + 1) s' := by
  obtain ⟨enough, r, hr⟩ := h.exists_pick hlt hint halgo
  have hpick : ∀ fuel ≥ enough, s.pickData rand fuel i =
      some { s with data := s.data.set i r.1, draws := r.2 } := by
    intro fuel hfuel
    rw [StripeList.pickData, hr fuel hfuel, Option.map_some]
  exact ⟨enough, _, hpick, h.pickData hlt (hpick enough le_rfl)⟩

/-- One list is generated. -/
theorem Marking.exists_generateList (hk : params.k ≤ params.n)
    (hn : params.n ≤ params.numServers) (h : Marking params i 0 0 s) (hint : i < 2 ^ 31)
    (halgo : params.useAlgo = true ∨ Fair rand params.numServers) :
    ∃ enough s', (∀ fuel ≥ enough, StripeList.generateList rand fuel s i = some s') ∧
      Marking params (i + 1) 0 0 s' := by
  obtain ⟨enough₁, s₁, hs₁, hparity⟩ := foldlM_fuel_range (n := s.n - s.k)
    (f := fun fuel s _ => s.pickParity rand fuel i) (P := fun j s => Marking params i j 0 s) h (by
      intro j hj t ht
      rw [h.n_eq, h.k_eq] at hj
      exact ht.exists_pickParity (by rw [ht.numServers_eq]; omega) hint halgo)
  obtain ⟨enough₂, s₂, hs₂, hdata⟩ := foldlM_fuel_range (n := s₁.k)
    (f := fun fuel s _ => s.pickData rand fuel i)
    (P := fun j s' => Marking params i (s.n - s.k) j s') hparity (by
      intro j hj t ht
      rw [hparity.k_eq] at hj
      exact ht.exists_pickData (by rw [ht.numServers_eq, h.n_eq, h.k_eq]; omega) hint halgo)
  have hgenerate : ∀ fuel ≥ max enough₁ enough₂,
      StripeList.generateList rand fuel s i = some ((s₂.arrange i).charge i) := by
    intro fuel hfuel
    unfold StripeList.generateList
    rw [hs₁ fuel (le_of_max_le_left hfuel)]
    simp [hs₂ fuel (le_of_max_le_right hfuel)]
  exact ⟨_, _, hgenerate, h.generateList hk hn (hgenerate _ le_rfl)⟩

theorem Marking.start (params : StripeListParams T) (allocated : ℕ → ℕ → T) :
    Marking params 0 0 0
      { params with
        data := ⟨params.numServers, fun _ => false⟩
        parity := ⟨params.numServers, fun _ => false⟩
        load := fun _ => 0
        count := fun _ => 0
        lists := allocated
        draws := 0 } := by
  have hnone : ∀ i, (⟨params.numServers, fun _ => false⟩ : BitmaskArray).members i = ∅ := by
    intro i
    simp [BitmaskArray.members, BitmaskArray.check]
  have hmarked : ∀ i, Marked ⟨params.numServers, fun _ => false⟩
      ⟨params.numServers, fun _ => false⟩ i 0 0 := by
    intro i
    refine ⟨?_, ?_, ?_⟩ <;> rw [hnone]
    · exact Finset.card_empty
    · exact Finset.card_empty
    · exact Finset.disjoint_empty_left _
  exact ⟨rfl, ⟨rfl, rfl⟩, fun i hi => absurd hi (Nat.not_lt_zero i), hmarked 0,
    fun i _ => hmarked i, fun _ => by norm_num, fun _ => le_rfl⟩

variable {allocated : ℕ → ℕ → T}

theorem construct_marking {fuel : ℕ} (hk : params.k ≤ params.n) (hn : params.n ≤ params.numServers)
    (h : construct params allocated rand fuel = some s) :
    Marking params params.numLists 0 0 s := by
  apply foldlM_option_range (P := fun i s => Marking params i 0 0 s)
    (Marking.start params allocated) _ h
  intro i _ t t' ht ht'
  exact ht.generateList hk hn ht'

theorem exists_construct (hk : params.k ≤ params.n) (hn : params.n ≤ params.numServers)
    (hint : params.numLists ≤ 2 ^ 31)
    (halgo : params.useAlgo = true ∨ Fair rand params.numServers) :
    ∃ enough s, ∀ fuel ≥ enough, construct params allocated rand fuel = some s := by
  obtain ⟨enough, s, hs, -⟩ := foldlM_fuel_range (n := params.numLists)
    (f := generateList rand) (P := fun i s => Marking params i 0 0 s)
    (Marking.start params allocated) (by
      intro i hi t ht
      exact ht.exists_generateList hk hn (by omega) halgo)
  exact ⟨enough, s, hs⟩

/-! ## Updating -/

/-- All lists are marked and arranged. -/
structure Generated (s : StripeList T) : Prop where
  sized : s.Sized
  marked : ∀ i < s.numLists, Marked s.data s.parity i (s.n - s.k) s.k
  arranged : ∀ i < s.numLists, s.Arranged i

theorem Marking.generated (h : Marking params params.numLists 0 0 s) : s.Generated := by
  have hlists : s.numLists = params.numLists := congrArg StripeListParams.numLists h.params_eq
  refine ⟨h.sized, ?_, ?_⟩
  · intro i hi
    exact (h.earlier i (hlists ▸ hi)).1
  · intro i hi
    exact (h.earlier i (hlists ▸ hi)).2

/-- `update` writes the arrays only, and arranges all of them. -/
theorem exists_update (hs : s.Sized)
    (hmarked : ∀ i < s.numLists, Marked s.data s.parity i (s.n - s.k) s.k) :
    ∃ lists, s.update = { s with lists } ∧ { s with lists }.Generated := by
  have hloop : ∀ m ≤ s.numLists, ∃ lists,
      (List.range m).foldl (fun s i => s.arrange i) s = { s with lists } ∧
        ∀ i < m, { s with lists }.Arranged i := by
    intro m hm
    induction m with
    | zero => exact ⟨s.lists, rfl, fun i hi => absurd hi (Nat.not_lt_zero i)⟩
    | succ m ih =>
      obtain ⟨lists, hfold, harranged⟩ := ih (by omega)
      refine ⟨({ s with lists }.arrange m).lists, ?_, ?_⟩
      · rw [List.range_succ, List.foldl_append, hfold]
        rfl
      · intro i hi
        rcases Nat.lt_succ_iff_lt_or_eq.mp hi with hlt | rfl
        · exact arranged_arrange_of_ne hlt.ne (harranged i hlt)
        · exact arranged_arrange (s := { s with lists }) hs (hmarked i (by omega))
  obtain ⟨lists, hfold, harranged⟩ := hloop s.numLists le_rfl
  exact ⟨lists, hfold, hs, hmarked, harranged⟩

/-- Replacing sockets and updating leaves everything as it was, but for the servers and
the arrays. -/
theorem Generated.updates (h : s.Generated) (replaced : List (ℕ → T)) :
    ∃ servers lists, s.updates replaced = { s with servers, lists } ∧
      (s.updates replaced).Generated ∧ servers = replaced.getLast?.getD s.servers := by
  induction replaced using List.reverseRecOn with
  | nil => exact ⟨s.servers, s.lists, rfl, h, rfl⟩
  | append_singleton replaced servers ih =>
    obtain ⟨before, lists, heq, hgenerated, -⟩ := ih
    have hlast : s.updates (replaced ++ [servers]) = { s with servers, lists }.update := by
      unfold StripeList.updates at heq ⊢
      rw [List.foldl_append, heq]
      rfl
    rw [heq] at hgenerated
    obtain ⟨lists', hupdate, hgenerated'⟩ :=
      exists_update (s := { s with servers, lists }) hgenerated.sized hgenerated.marked
    refine ⟨servers, lists', ?_, ?_, by simp⟩
    · rw [hlast, hupdate]
    · rw [hlast, hupdate]
      exact hgenerated'

/-! ## What is read off -/

/-- The server of a chunk. -/
noncomputable def member (s : StripeList T) (i c : ℕ) : ℕ :=
  if c < s.k then ranked (s.data.members i) c else ranked (s.parity.members i) (c - s.k)

/-- The loops of `list` count ranks. -/
theorem countBefore_eq {b : BitmaskArray} (hb : b.size = s.numServers) {j : ℕ}
    (hj : j < s.numServers) : s.countBefore b i j = rank (b.members i) j := by
  have hbefore : (List.range s.numServers).takeWhile (· ≠ j) = List.range j := by
    obtain ⟨r, hr⟩ := Nat.exists_eq_add_of_lt hj
    rw [hr, show j + r + 1 = j + (r + 1) from rfl, List.range_add, List.takeWhile_append_of_pos]
    · simp [List.range_succ_eq_map]
    · intro a ha
      have hlt := List.mem_range.mp ha
      simpa using hlt.ne
  have hcount : ∀ m ≤ s.numServers, (List.range m).foldl
      (fun chunkId j => if b.check i j then chunkId + 1 else chunkId) 0 = rank (b.members i) m := by
    intro m hm
    induction m with
    | zero => exact rank_zero.symm
    | succ m ih =>
      have hmem : m ∈ b.members i ↔ b.check i m = true := by
        rw [BitmaskArray.mem_members, hb]
        exact and_iff_right (by omega)
      rw [List.range_succ, List.foldl_append, ih (by omega), rank_succ, if_congr hmem rfl rfl]
      by_cases hcheck : b.check i m = true <;> simp [hcheck]
  rw [countBefore, hbefore, hcount j hj.le]

/-- The servers of the chunks of a list are in its bitmaps. -/
theorem Generated.member_mem (h : s.Generated) (hi : i < s.numLists) {c : ℕ} (hc : c < s.n) :
    if c < s.k then s.member i c ∈ s.data.members i ∧ rank (s.data.members i) (s.member i c) = c
    else s.member i c ∈ s.parity.members i ∧
      rank (s.parity.members i) (s.member i c) = c - s.k := by
  have hmarked := h.marked i hi
  unfold member
  by_cases hk : c < s.k
  · simp only [if_pos hk]
    exact ⟨ranked_mem (hmarked.cardData ▸ hk), rank_ranked (hmarked.cardData ▸ hk)⟩
  · have hlt : c - s.k < (s.parity.members i).card := by
      rw [hmarked.cardParity]
      omega
    simp only [if_neg hk]
    exact ⟨ranked_mem hlt, rank_ranked hlt⟩

theorem Generated.member_lt (h : s.Generated) (hi : i < s.numLists) {c : ℕ} (hc : c < s.n) :
    s.member i c < s.numServers := by
  have hmem := h.member_mem hi hc
  split_ifs at hmem
  · exact h.sized.1 ▸ (BitmaskArray.mem_members.mp hmem.1).1
  · exact h.sized.2 ▸ (BitmaskArray.mem_members.mp hmem.1).1

/-- No server holds two chunks of a list. -/
theorem Generated.member_inj (h : s.Generated) (hi : i < s.numLists) {c c' : ℕ} (hc : c < s.n)
    (hc' : c' < s.n) (heq : s.member i c = s.member i c') : c = c' := by
  have hmem := h.member_mem hi hc
  have hmem' := h.member_mem hi hc'
  have hdisjoint := Finset.disjoint_left.mp (h.marked i hi).disjoint
  rw [heq] at hmem
  split_ifs at hmem hmem' with hk hk' hk'
  · exact hmem.2.symm.trans hmem'.2
  · exact absurd hmem'.1 (hdisjoint hmem.1)
  · exact absurd hmem.1 (hdisjoint hmem'.1)
  · have hrank := hmem.2.symm.trans hmem'.2
    omega

theorem Generated.get_eq (h : s.Generated) (hi : i < s.numLists) {c : ℕ} (hc : c < s.n) :
    s.get i c = s.servers (s.member i c) := by
  obtain ⟨hdata, hparity⟩ := h.arranged i hi
  unfold get member
  by_cases hk : c < s.k
  · rw [if_pos hk]
    exact hdata c hk
  · rw [if_neg hk, ← hparity (c - s.k) (by omega), Nat.add_sub_cancel' (Nat.le_of_not_lt hk)]

/-- What `list` reports for a server. -/
def Reports (s : StripeList T) (member : ℕ → ℕ → ℕ) (j : ℕ) (x : StripeListIndex) : Prop :=
  x.listId < s.numLists ∧ x.chunkId < s.n ∧ member x.listId x.chunkId = j ∧
    x.isParity = decide (s.k ≤ x.chunkId) ∧ x.stripeId = 0

/-- A server is in a list as a data server, as a parity server, or not at all. -/
theorem Generated.reports_iff (h : s.Generated) (hk : s.k ≤ s.n) {j : ℕ} (hj : j < s.numServers)
    {x : StripeListIndex} : s.Reports s.member j x ↔ x.listId < s.numLists ∧
      (if s.data.check x.listId j then
        some { listId := x.listId, stripeId := 0,
               chunkId := s.countBefore s.data x.listId j, isParity := false }
      else if s.parity.check x.listId j then
        some { listId := x.listId, stripeId := 0,
               chunkId := s.k + s.countBefore s.parity x.listId j, isParity := true }
      else none) = some x := by
  obtain ⟨listId, stripeId, chunkId, isParity⟩ := x
  apply and_congr_right
  intro hi
  dsimp only at hi ⊢
  have hmarked := h.marked listId hi
  have hd : j ∈ s.data.members listId ↔ s.data.check listId j = true := by
    rw [BitmaskArray.mem_members, h.sized.1]
    exact and_iff_right hj
  have hp : j ∈ s.parity.members listId ↔ s.parity.check listId j = true := by
    rw [BitmaskArray.mem_members, h.sized.2]
    exact and_iff_right hj
  rw [countBefore_eq h.sized.1 hj, countBefore_eq h.sized.2 hj]
  have hdisjoint := Finset.disjoint_left.mp hmarked.disjoint
  constructor
  · rintro ⟨hc, hmember, hkind, hstripe⟩
    obtain rfl : isParity = decide (s.k ≤ chunkId) := hkind
    subst hmember hstripe
    have hmem := h.member_mem hi hc
    split_ifs at hmem with hck
    · rw [if_pos (hd.mp hmem.1), hmem.2, decide_eq_false (Nat.not_le.mpr hck)]
    · rw [if_neg fun hcheck => hdisjoint (hd.mpr hcheck) hmem.1, if_pos (hp.mp hmem.1), hmem.2,
        Nat.add_sub_cancel' (Nat.le_of_not_lt hck), decide_eq_true (Nat.le_of_not_lt hck)]
  · intro hsome
    by_cases hcheck : s.data.check listId j = true
    · rw [if_pos hcheck] at hsome
      cases hsome
      have hlt : rank (s.data.members listId) j < s.k :=
        hmarked.cardData ▸ rank_lt_card (hd.mpr hcheck)
      refine ⟨hlt.trans_le hk, ?_, (decide_eq_false (Nat.not_le.mpr hlt)).symm, rfl⟩
      rw [member, if_pos hlt, ranked_rank (hd.mpr hcheck)]
    · rw [if_neg hcheck] at hsome
      by_cases hpcheck : s.parity.check listId j = true
      · rw [if_pos hpcheck] at hsome
        cases hsome
        have hlt : rank (s.parity.members listId) j < s.n - s.k :=
          hmarked.cardParity ▸ rank_lt_card (hp.mpr hpcheck)
        refine ⟨by omega, ?_, (decide_eq_true (Nat.le_add_right _ _)).symm, rfl⟩
        rw [member, if_neg (by omega), Nat.add_sub_cancel_left, ranked_rank (hp.mpr hpcheck)]
      · rw [if_neg hpcheck] at hsome
        cases hsome

/-- Every lookup agrees with `member`, the server of each chunk of each list. -/
structure Consistent (s : StripeList T) (member : ℕ → ℕ → ℕ) : Prop where
  lt : ∀ i < s.numLists, ∀ c < s.n, member i c < s.numServers
  inj : ∀ i < s.numLists, ∀ c < s.n, ∀ c' < s.n, member i c = member i c' → c = c'
  get : ∀ i < s.numLists, ∀ c < s.n, s.get i c = s.servers (member i c)
  list : ∀ j < s.numServers, (∀ x, x ∈ s.list j ↔ s.Reports member j x) ∧
    (s.list j).Pairwise fun x y => x.listId < y.listId
  dataServers : ∀ i < s.numLists,
    s.dataServers i = (List.range s.k).map fun c => s.servers (member i c)
  parityServers : ∀ i < s.numLists,
    s.parityServers i = (List.range (s.n - s.k)).map fun c => s.servers (member i (s.k + c))
  getByKey : 0 < s.numLists → ∀ key full, let r := s.getByKey key full
    r.listIndex < s.numLists ∧ r.dataIndex < s.k ∧
      r.data = (if full then s.dataServers r.listIndex
        else [s.servers (member r.listIndex r.dataIndex)]) ∧
      (r.parity, s.dataServers r.listIndex) = s.getByList r.listIndex ∧
      s.getByHash (HashFunc.hash key) = (r.listIndex, s.dataServers r.listIndex, r.parity)
  getByHash : 0 < s.numLists → ∀ hashValue, (s.getByHash hashValue).1 < s.numLists
  getByJump : ∀ i < s.numLists, ∀ dataIndex jump, let r := s.getByJump i dataIndex jump
    r.2 < s.n ∧ r.1 = s.servers (member i r.2)

theorem Generated.consistent (h : s.Generated) (hk : 0 < s.k) (hkn : s.k ≤ s.n) :
    s.Consistent s.member where
  lt i hi c hc := h.member_lt hi hc
  inj i hi c hc c' hc' heq := h.member_inj hi hc hc' heq
  get i hi c hc := h.get_eq hi hc
  list j hj := by
    constructor
    · intro x
      rw [h.reports_iff hkn hj, StripeList.list, List.mem_filterMap]
      constructor
      · rintro ⟨i, hi, hsome⟩
        have heq : x.listId = i := by
          split_ifs at hsome <;> cases hsome <;> rfl
        subst heq
        exact ⟨List.mem_range.mp hi, hsome⟩
      · rintro ⟨hi, hsome⟩
        exact ⟨x.listId, List.mem_range.mpr hi, hsome⟩
    · apply List.pairwise_lt_range.filterMap
      intro i i' hlt x hx y hy
      split_ifs at hx hy <;> cases hx <;> cases hy <;> exact hlt
  dataServers i hi := by
    apply List.map_congr_left
    intro c hc
    exact h.get_eq hi ((List.mem_range.mp hc).trans_le hkn)
  parityServers i hi := by
    apply List.map_congr_left
    intro c hc
    have hlt := List.mem_range.mp hc
    exact h.get_eq hi (by omega)
  getByKey hpos key full := by
    have hi : s.listOfHash (HashFunc.hash key) < s.numLists := Nat.mod_lt _ hpos
    have hc : HashFunc.hash key % s.k < s.k := Nat.mod_lt _ hk
    have hget := h.get_eq hi (hc.trans_le hkn)
    refine ⟨hi, hc, ?_, rfl, rfl⟩
    simp only [StripeList.getByKey, hget]
  getByHash hpos hashValue := Nat.mod_lt _ hpos
  getByJump i hi dataIndex jump := by
    have hlt : u32 (hashNumber dataIndex + jump) % s.n < s.n := Nat.mod_lt _ (by omega)
    exact ⟨hlt, h.get_eq hi hlt⟩

/-- Every stripe list has `n` different servers, and all lookups agree on them, whichever way
the servers are selected and however often their sockets are replaced. The constructor returns
when the lists are counted by an `int`, and `rand` keeps drawing every server. -/
theorem construct_consistent (hk : 0 < params.k) (hkn : params.k ≤ params.n)
    (hn : params.n ≤ params.numServers) (allocated : ℕ → ℕ → T) (rand : ℕ → ℕ) :
    (∀ fuel s, construct params allocated rand fuel = some s →
      ∃ member, s.Consistent member ∧ ∀ replaced, (s.updates replaced).Consistent member ∧
        (s.updates replaced).toStripeListParams =
          { params with servers := replaced.getLast?.getD params.servers }) ∧
    (params.numLists ≤ 2 ^ 31 → params.useAlgo = true ∨ Fair rand params.numServers →
      ∃ enough s, ∀ fuel ≥ enough, construct params allocated rand fuel = some s) := by
  constructor
  · intro fuel s hs
    have hmarking := construct_marking hkn hn hs
    have hgenerated := hmarking.generated
    have hk' : 0 < s.k := hmarking.k_eq ▸ hk
    have hkn' : s.k ≤ s.n := by rwa [hmarking.k_eq, hmarking.n_eq]
    refine ⟨s.member, hgenerated.consistent hk' hkn', fun replaced => ?_⟩
    obtain ⟨servers, lists, heq, hupdated, hservers⟩ := hgenerated.updates replaced
    rw [heq] at hupdated ⊢
    refine ⟨hupdated.consistent hk' hkn', ?_⟩
    rw [hservers, ← hmarking.params_eq]
  · intro hint halgo
    exact exists_construct hkn hn hint halgo

/-- Two data servers and a parity server in each of four lists over five servers. -/
def sampleParams : StripeListParams ℕ where
  n := 3
  k := 2
  numLists := 4
  numServers := 5
  useAlgo := true
  servers := id

theorem construct_consistent_sample : ∃ fuel s,
    construct sampleParams (fun _ _ => 0) id fuel = some s ∧
      ∃ member, s.Consistent member ∧ ∀ replaced, (s.updates replaced).Consistent member := by
  have hk : 0 < sampleParams.k := by decide
  obtain ⟨hconsistent, hexists⟩ :=
    construct_consistent hk (by decide) (by decide) (fun _ _ => 0) id
  obtain ⟨enough, s, hs⟩ := hexists (by decide) (Or.inl rfl)
  obtain ⟨member, hmember, hupdates⟩ := hconsistent enough s (hs enough le_rfl)
  exact ⟨enough, s, hs enough le_rfl, member, hmember, fun replaced => (hupdates replaced).1⟩

-- Server 2 is the second data server of one list and the parity server of another.
example : (construct sampleParams (fun _ _ => 0) id 0).map (fun s => s.list 2) =
    some [⟨0, 0, 1, false⟩, ⟨2, 0, 2, true⟩] := by
  decide +kernel

end StripeList

end MemEC.Common
