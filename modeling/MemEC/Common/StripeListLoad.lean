import MemEC.Common.StripeListMembers

/-!
# The loads of the servers

The load-aware selection takes the least loaded servers for a list: first its
parity servers, to whose load `k` is added, then its data servers, to whose load
one is added. Over any number of lists, the loads stay within `k` of each other
as long as they fit in 32 bits.
-/

namespace MemEC.Common

open MemEC.Lib

/-! ## Least loaded servers -/

/-- No other server has less load than a parity server, and no server outside of the list has less
than a data server. -/
structure ChoosesLeast (numServers : ℕ) (load : ℕ → ℕ) (parity data : Finset ℕ) : Prop where
  parity_le : ∀ x ∈ parity, ∀ j < numServers, j ∉ parity → load x ≤ load j
  data_le : ∀ x ∈ data, ∀ j < numServers, j ∉ parity → j ∉ data → load x ≤ load j

namespace ChoosesLeast

variable {numServers x : ℕ} {load : ℕ → ℕ} {parity data : Finset ℕ}

theorem empty : ChoosesLeast numServers load ∅ ∅ :=
  ⟨fun x hx => absurd hx (Finset.notMem_empty x), fun x hx => absurd hx (Finset.notMem_empty x)⟩

/-- The parity servers are chosen while there is no data server. -/
theorem insertParity (h : ChoosesLeast numServers load parity ∅)
    (hx : ∀ j < numServers, j ∉ parity → load x ≤ load j) :
    ChoosesLeast numServers load (insert x parity) ∅ := by
  refine ⟨fun y hy j hj hnot => ?_, fun y hy => absurd hy (Finset.notMem_empty y)⟩
  rw [Finset.mem_insert, not_or] at hnot
  rcases Finset.mem_insert.mp hy with rfl | hy
  · exact hx j hj hnot.2
  · exact h.parity_le y hy j hj hnot.2

theorem insertData (h : ChoosesLeast numServers load parity data)
    (hx : ∀ j < numServers, j ∉ parity → j ∉ data → load x ≤ load j) :
    ChoosesLeast numServers load parity (insert x data) := by
  refine ⟨h.parity_le, fun y hy j hj hparity hnot => ?_⟩
  rw [Finset.mem_insert, not_or] at hnot
  rcases Finset.mem_insert.mp hy with rfl | hy
  · exact hx j hj hparity hnot.2
  · exact h.data_le y hy j hj hparity hnot.2

end ChoosesLeast

/-- The load of a server after a list, without bounds. -/
def charged (k : ℕ) (load : ℕ → ℕ) (parity data : Finset ℕ) (j : ℕ) : ℕ :=
  if j ∈ data then load j + 1 else if j ∈ parity then load j + k else load j

/-- No load is more than `k` above another. -/
def LoadsWithin (numServers k : ℕ) (load : ℕ → ℕ) : Prop :=
  ∀ i < numServers, ∀ j < numServers, load i ≤ load j + k

/-- A list of least loaded servers keeps the loads together. -/
theorem LoadsWithin.charged {numServers k : ℕ} {load : ℕ → ℕ} {parity data : Finset ℕ}
    (h : LoadsWithin numServers k load) (hleast : ChoosesLeast numServers load parity data)
    (hdisj : Disjoint data parity) (hk : data.Nonempty → 0 < k) :
    LoadsWithin numServers k (charged k load parity data) := by
  intro i hi j hj
  have hij := h i hi j hj
  by_cases hid : i ∈ data
  · have hpos := hk ⟨i, hid⟩
    rw [Common.charged, Common.charged, if_pos hid]
    split_ifs with hjd hjp
    · omega
    · omega
    · have hle := hleast.data_le i hid j hj hjp hjd
      omega
  · by_cases hip : i ∈ parity
    · rw [Common.charged, Common.charged, if_neg hid, if_pos hip]
      split_ifs with hjd hjp
      · have hle := hleast.parity_le i hip j hj (Finset.disjoint_left.mp hdisj hjd)
        omega
      · omega
      · have hle := hleast.parity_le i hip j hj hjp
        omega
    · rw [Common.charged, Common.charged, if_neg hid, if_neg hip]
      split_ifs
      · omega
      · omega
      · exact hij

namespace StripeList

variable {T : Type} {s s' : StripeList T} {params : StripeListParams T} {rand : ℕ → ℕ}
  {fuel i p d : ℕ} {load : ℕ → ℕ}

/-! ## One list -/

/-- `generate` while it chooses the servers of list `i`. -/
structure Choosing (params : StripeListParams T) (load : ℕ → ℕ) (i p d : ℕ) (s : StripeList T) :
    Prop extends Marking params i p d s where
  load_eq : s.load = load
  least : ChoosesLeast params.numServers load (s.parity.members i) (s.data.members i)

theorem pick_eq_pickMin (halgo : s.useAlgo = true) {r : ℕ × ℕ} (h : s.pick rand fuel i = some r) :
    i < 2 ^ 31 ∧ r = (s.pickMin i, s.draws) := by
  rw [pick] at h
  split_ifs at h with hint
  exact ⟨by omega, (Option.some.inj h).symm⟩

theorem Choosing.useAlgo_eq (h : Choosing params load i p d s) : s.useAlgo = params.useAlgo :=
  congrArg StripeListParams.useAlgo h.params_eq

/-- The server that is picked, beside what it is for. -/
theorem Choosing.pick (h : Choosing params load i p d s) (halgo : params.useAlgo = true)
    (hlt : p + d < params.numServers) {r : ℕ × ℕ} (hr : s.pick rand fuel i = some r) :
    r.1 < s.numServers ∧ s.Free i r.1 ∧
      ∀ j < params.numServers, j ∉ s.data.members i → j ∉ s.parity.members i →
        load r.1 ≤ load j := by
  obtain ⟨hint, rfl⟩ := pick_eq_pickMin (h.useAlgo_eq.trans halgo) hr
  rw [← h.numServers_eq] at hlt ⊢
  obtain ⟨hx, hfree, hleast⟩ := h.pickMin_least hint hlt
  refine ⟨hx, hfree, fun j hj hdata hparity => ?_⟩
  rw [← h.load_eq]
  exact hleast j hj ((free_iff h.sized hj).mpr ⟨hdata, hparity⟩)

theorem Choosing.pickParity (h : Choosing params load i p 0 s) (halgo : params.useAlgo = true)
    (hlt : p < params.numServers) (hs' : s.pickParity rand fuel i = some s') :
    Choosing params load i (p + 1) 0 s' := by
  have hmarking := h.toMarking.pickParity (by rwa [h.numServers_eq]) hs'
  obtain ⟨r, hr, rfl⟩ := Option.map_eq_some_iff.mp hs'
  obtain ⟨hx, -, hleast⟩ := h.pick halgo hlt hr
  have hdata : s.data.members i = ∅ := Finset.card_eq_zero.mp h.here.cardData
  refine ⟨hmarking, h.load_eq, ?_⟩
  rw [BitmaskArray.members_set (h.sized.2 ▸ hx), hdata]
  refine ChoosesLeast.insertParity (hdata ▸ h.least) fun j hj hparity => ?_
  exact hleast j hj (by rw [hdata]; exact Finset.notMem_empty j) hparity

theorem Choosing.pickData (h : Choosing params load i p d s) (halgo : params.useAlgo = true)
    (hlt : p + d < params.numServers) (hs' : s.pickData rand fuel i = some s') :
    Choosing params load i p (d + 1) s' := by
  have hmarking := h.toMarking.pickData (by rwa [h.numServers_eq]) hs'
  obtain ⟨r, hr, rfl⟩ := Option.map_eq_some_iff.mp hs'
  obtain ⟨hx, -, hleast⟩ := h.pick halgo hlt hr
  refine ⟨hmarking, h.load_eq, ?_⟩
  rw [BitmaskArray.members_set (h.sized.1 ▸ hx)]
  exact h.least.insertData fun j hj hparity hdata => hleast j hj hdata hparity

/-- The servers of a list, and what the list adds to the loads. -/
structure ChargesList (params : StripeListParams T) (load load' : ℕ → ℕ) (parity data : Finset ℕ) :
    Prop where
  cardParity : parity.card = params.n - params.k
  cardData : data.card = params.k
  disjoint : Disjoint data parity
  subset : data ∪ parity ⊆ Finset.range params.numServers
  least : ChoosesLeast params.numServers load parity data
  load_eq : ∀ j < params.numServers, load' j = u32 (charged params.k load parity data j)

theorem charge_load {j : ℕ} (hs : s.Sized) (hj : j < s.numServers) (hload : s.load j < 2 ^ 32) :
    (s.charge i).load j = u32 (charged s.k s.load (s.parity.members i) (s.data.members i) j) := by
  have hdata : j ∈ s.data.members i ↔ s.data.check i j = true := by
    rw [BitmaskArray.mem_members, hs.1]
    exact and_iff_right hj
  have hparity : j ∈ s.parity.members i ↔ s.parity.check i j = true := by
    rw [BitmaskArray.mem_members, hs.2]
    exact and_iff_right hj
  have hcharge : (s.charge i).load j = if s.data.check i j then u32 (s.load j + 1)
      else if s.parity.check i j then u32 (s.load j + s.k) else s.load j :=
    if_neg (Nat.not_le.mpr hj)
  rw [hcharge, charged]
  simp only [hdata, hparity]
  split_ifs
  · rfl
  · rfl
  · exact (u32_eq hload).symm

/-- A list is made of the least loaded servers. -/
theorem Marking.generateList_charges (h : Marking params i 0 0 s) (halgo : params.useAlgo = true)
    (hk : params.k ≤ params.n) (hn : params.n ≤ params.numServers)
    (hs' : StripeList.generateList rand fuel s i = some s') :
    ∃ parity data, ChargesList params s.load s'.load parity data := by
  unfold StripeList.generateList at hs'
  simp only [Option.bind_eq_bind, Option.bind_eq_some_iff, Option.pure_def] at hs'
  obtain ⟨s₁, hs₁, s₂, hs₂, hs'⟩ := hs'
  rw [h.n_eq, h.k_eq] at hs₁
  have hstart : Choosing params s.load i 0 0 s := by
    refine ⟨h, rfl, ?_⟩
    rw [Finset.card_eq_zero.mp h.here.cardParity, Finset.card_eq_zero.mp h.here.cardData]
    exact .empty
  have hparity : Choosing params s.load i (params.n - params.k) 0 s₁ := by
    refine foldlM_option_range (P := fun j t => Choosing params s.load i j 0 t) hstart ?_ hs₁
    exact fun j hj t t' ht ht' => ht.pickParity halgo (by omega) ht'
  rw [hparity.k_eq] at hs₂
  have hdata : Choosing params s.load i (params.n - params.k) params.k s₂ := by
    refine foldlM_option_range
      (P := fun j t => Choosing params s.load i (params.n - params.k) j t) hparity ?_ hs₂
    exact fun j hj t t' ht ht' => ht.pickData halgo (by omega) ht'
  cases hs'
  refine ⟨s₂.parity.members i, s₂.data.members i, hdata.here.cardParity, hdata.here.cardData,
    hdata.here.disjoint, ?_, hdata.least, fun j hj => ?_⟩
  · intro j hj
    rw [Finset.mem_range, ← hdata.numServers_eq]
    rcases Finset.mem_union.mp hj with hj | hj
    · exact hdata.sized.1 ▸ (BitmaskArray.mem_members.mp hj).1
    · exact hdata.sized.2 ▸ (BitmaskArray.mem_members.mp hj).1
  · rw [← hdata.numServers_eq] at hj
    have hcharge := charge_load (s := s₂.arrange i) (i := i) hdata.sized hj (hdata.load_lt j)
    rw [hcharge, ← hdata.load_eq, ← hdata.k_eq]
    rfl

/-! ## All lists -/

/-- What the constructor starts with. -/
def allocate (params : StripeListParams T) (allocated : ℕ → ℕ → T) : StripeList T :=
  { params with
    data := ⟨params.numServers, fun _ => false⟩
    parity := ⟨params.numServers, fun _ => false⟩
    load := fun _ => 0
    count := fun _ => 0
    lists := allocated
    draws := 0 }

/-- `generate` after `i` lists. -/
def afterLists (params : StripeListParams T) (allocated : ℕ → ℕ → T) (rand : ℕ → ℕ) (fuel i : ℕ) :
    Option (StripeList T) :=
  (List.range i).foldlM (generateList rand fuel) (allocate params allocated)

variable {allocated : ℕ → ℕ → T}

theorem construct_eq_afterLists : construct params allocated rand fuel =
    afterLists params allocated rand fuel params.numLists := rfl

theorem afterLists_marking (hk : params.k ≤ params.n) (hn : params.n ≤ params.numServers)
    (hs : afterLists params allocated rand fuel i = some s) : Marking params i 0 0 s := by
  refine foldlM_option_range (P := fun i s => Marking params i 0 0 s)
    (Marking.start params allocated) ?_ hs
  exact fun i _ t t' ht ht' => ht.generateList hk hn ht'

theorem afterLists_succ : afterLists params allocated rand fuel (i + 1) =
    (afterLists params allocated rand fuel i).bind fun s => generateList rand fuel s i := by
  rw [afterLists, List.range_succ, List.foldlM_append]
  simp [afterLists]

/-- One list more. -/
theorem afterLists_charges (halgo : params.useAlgo = true) (hk : params.k ≤ params.n)
    (hn : params.n ≤ params.numServers)
    (hs' : afterLists params allocated rand fuel (i + 1) = some s') :
    ∃ s parity data, afterLists params allocated rand fuel i = some s ∧
      ChargesList params s.load s'.load parity data := by
  rw [afterLists_succ] at hs'
  obtain ⟨s, hs, hs'⟩ := Option.bind_eq_some_iff.mp hs'
  obtain ⟨parity, data, hcharges⟩ :=
    (afterLists_marking hk hn hs).generateList_charges halgo hk hn hs'
  exact ⟨s, parity, data, hs, hcharges⟩

/-- The loads of all servers have room for one list more. -/
def HasRoom (s : StripeList T) : Prop := ∀ j < s.numServers, s.load j + s.k < 2 ^ 32

theorem ChargesList.within {load' : ℕ → ℕ} {parity data : Finset ℕ}
    (h : ChargesList params load load' parity data)
    (hwithin : LoadsWithin params.numServers params.k load)
    (hroom : ∀ j < params.numServers, load j + params.k < 2 ^ 32) :
    LoadsWithin params.numServers params.k load' := by
  have hpos : data.Nonempty → 0 < params.k := fun hne => h.cardData ▸ hne.card_pos
  have hload : ∀ j < params.numServers, load' j = charged params.k load parity data j := by
    intro j hj
    have hj' := hroom j hj
    rw [h.load_eq j hj, u32_eq]
    rw [charged]
    split_ifs with hjd
    · have hk := hpos ⟨j, hjd⟩
      omega
    · omega
    · omega
  intro i hi j hj
  rw [hload i hi, hload j hj]
  exact hwithin.charged h.least h.disjoint hpos i hi j hj

/-- After every list no load is more than `k` above another, as long as the loads have room. -/
theorem afterLists_within (params : StripeListParams T) (allocated : ℕ → ℕ → T) (rand : ℕ → ℕ)
    (fuel : ℕ) (halgo : params.useAlgo = true) (hk : params.k < params.n)
    (hn : params.n ≤ params.numServers) {i : ℕ} {s : StripeList T}
    (hs : afterLists params allocated rand fuel i = some s)
    (hroom : ∀ i' < i, ∀ s', afterLists params allocated rand fuel i' = some s' → s'.HasRoom) :
    LoadsWithin s.numServers s.k s.load := by
  have hmarking := afterLists_marking hk.le hn hs
  rw [hmarking.numServers_eq, hmarking.k_eq]
  clear hmarking
  induction i generalizing s with
  | zero =>
    obtain rfl := Option.some.inj hs
    exact fun i _ j _ => Nat.zero_le _
  | succ i ih =>
    obtain ⟨s₀, parity, data, hs₀, hcharges⟩ := afterLists_charges halgo hk.le hn hs
    have hmarking := afterLists_marking hk.le hn hs₀
    have hroom₀ := hroom i (Nat.lt_succ_self i) s₀ hs₀
    rw [HasRoom, hmarking.numServers_eq, hmarking.k_eq] at hroom₀
    exact hcharges.within (ih hs₀ fun i' hi' => hroom i' (Nat.lt_succ_of_lt hi')) hroom₀

/-- Every list adds at most `k` to a load. -/
theorem afterLists_load_le (halgo : params.useAlgo = true) (hk : params.k ≤ params.n)
    (hn : params.n ≤ params.numServers) (hs : afterLists params allocated rand fuel i = some s)
    {j : ℕ} (hj : j < params.numServers) : s.load j ≤ i * params.k := by
  induction i generalizing s with
  | zero =>
    obtain rfl := Option.some.inj hs
    exact Nat.zero_le _
  | succ i ih =>
    obtain ⟨s₀, parity, data, hs₀, hcharges⟩ := afterLists_charges halgo hk hn hs
    have hload := ih hs₀
    have hle := u32_le (charged params.k s₀.load parity data j)
    rw [hcharges.load_eq j hj]
    refine hle.trans ?_
    rw [charged, Nat.succ_mul]
    split_ifs with hjd
    · have hpos : 0 < params.k := hcharges.cardData ▸ Finset.card_pos.mpr ⟨j, hjd⟩
      omega
    · omega
    · omega

/-- With fewer than `2 ^ 32 / k` lists the loads have room. -/
theorem hasRoom_of_lt (halgo : params.useAlgo = true) (hk : params.k ≤ params.n)
    (hn : params.n ≤ params.numServers) (hlt : i * params.k < 2 ^ 32) :
    ∀ i' < i, ∀ s', afterLists params allocated rand fuel i' = some s' → s'.HasRoom := by
  intro i' hi' s' hs' j hj
  have hmarking := afterLists_marking hk hn hs'
  rw [hmarking.numServers_eq] at hj
  rw [hmarking.k_eq]
  have hload := afterLists_load_le halgo hk hn hs' hj
  have hmul : (i' + 1) * params.k ≤ i * params.k := Nat.mul_le_mul_right _ hi'
  rw [Nat.succ_mul] at hmul
  omega

theorem afterLists_within_sample : ∃ s, afterLists sampleParams (fun _ _ => 0) id 0 4 = some s ∧
    LoadsWithin s.numServers s.k s.load := by
  have hsome : (afterLists sampleParams (fun _ _ => 0) id 0 4).isSome := by decide +kernel
  obtain ⟨s, hs⟩ := Option.isSome_iff_exists.mp hsome
  exact ⟨s, hs, afterLists_within _ _ _ _ rfl (by decide) (by decide) hs
    (hasRoom_of_lt rfl (by decide) (by decide) (by decide))⟩

/-! ## Loads that do not fit -/

/-- Lists of all ten servers, more than the loads have room for. -/
def fullParams : StripeListParams ℕ where
  n := 10
  k := 5
  numLists := 1431655765
  numServers := 10
  useAlgo := true
  servers := id

section Full

variable {load load' load'' : ℕ → ℕ} {parity data : Finset ℕ} {L : ℕ}

theorem ChargesList.mem_or (h : ChargesList fullParams load load' parity data) {j : ℕ} (hj : j < 10) :
    j ∈ data ∨ j ∈ parity := by
  have hcard : (data ∪ parity).card = (Finset.range 10).card := by
    rw [Finset.card_union_of_disjoint h.disjoint, h.cardData, h.cardParity]
    rfl
  have hall : data ∪ parity = Finset.range 10 := Finset.eq_of_subset_of_card_le h.subset hcard.ge
  exact Finset.mem_union.mp (hall ▸ Finset.mem_range.mpr hj)

/-- When all servers have one load, half of them get the load of a parity server. -/
theorem ChargesList.half (h : ChargesList fullParams load load' parity data)
    (hload : ∀ j < 10, load j = L) :
    (∀ j ∈ parity, load' j = u32 (L + 5)) ∧ ∀ j ∈ data, load' j = u32 (L + 1) := by
  have hlt : ∀ j ∈ data ∪ parity, j < 10 := fun j hj => Finset.mem_range.mp (h.subset hj)
  constructor
  · intro j hj
    have hj' := hlt j (Finset.mem_union_right _ hj)
    rw [h.load_eq j hj', charged, if_neg (Finset.disjoint_right.mp h.disjoint hj), if_pos hj,
      hload j hj']
    rfl
  · intro j hj
    have hj' := hlt j (Finset.mem_union_left _ hj)
    rw [h.load_eq j hj', charged, if_pos hj, hload j hj']

/-- After the next list the other half has got it too. -/
theorem ChargesList.both {parity' data' : Finset ℕ}
    (h : ChargesList fullParams load load' parity data)
    (h' : ChargesList fullParams load' load'' parity' data') (hload : ∀ j < 10, load j = L)
    (hL : L + 6 < 2 ^ 32) : ∀ j < 10, load'' j = L + 6 := by
  obtain ⟨hparity, hdata⟩ := h.half hload
  rw [u32_eq (by omega)] at hparity hdata
  -- the data servers of the first list are the parity servers of the second one
  have hsub : parity' ⊆ data := by
    intro x hx
    by_contra hnot
    have hx' : x < 10 := Finset.mem_range.mp (h'.subset (Finset.mem_union_right _ hx))
    have hnotall : ¬data ⊆ parity' := by
      intro hall
      have heq := Finset.eq_of_subset_of_card_le hall (by rw [h'.cardParity, h.cardData]; rfl)
      exact hnot (heq ▸ hx)
    obtain ⟨y, hy, hy'⟩ := Finset.not_subset.mp hnotall
    have hlt : y < 10 := Finset.mem_range.mp (h.subset (Finset.mem_union_left _ hy))
    have hle := h'.least.parity_le x hx y hlt hy'
    rw [hdata y hy, hparity x ((h.mem_or hx').resolve_left hnot)] at hle
    omega
  have heq : parity' = data :=
    Finset.eq_of_subset_of_card_le hsub (by rw [h'.cardParity, h.cardData]; rfl)
  intro j hj
  rw [h'.load_eq j hj, charged]
  by_cases hjd : j ∈ data
  · rw [if_neg fun hj' => Finset.disjoint_left.mp h'.disjoint hj' (heq ▸ hjd),
      if_pos (heq ▸ hjd), hdata j hjd]
    exact u32_eq (by change L + 1 + 5 < _; omega)
  · have hjd' : j ∈ data' := (h'.mem_or hj).resolve_right fun hj' => hjd (heq ▸ hj')
    rw [if_pos hjd', hparity j ((h.mem_or hj).resolve_left hjd)]
    exact u32_eq (by omega)

/-- So the loads are all the same after an even number of lists. -/
theorem fullParams_loads {allocated : ℕ → ℕ → ℕ} {m : ℕ} {s : StripeList ℕ} (hm : m * 6 < 2 ^ 32)
    (hs : afterLists fullParams allocated rand fuel (2 * m) = some s) :
    ∀ j < 10, s.load j = m * 6 := by
  induction m generalizing s with
  | zero =>
    obtain rfl := Option.some.inj hs
    exact fun j _ => (Nat.zero_mul 6).symm
  | succ m ih =>
    obtain ⟨s₁, parity', data', hs₁, hcharges'⟩ :=
      afterLists_charges (i := 2 * m + 1) rfl (by decide) (by decide) hs
    obtain ⟨s₀, parity, data, hs₀, hcharges⟩ :=
      afterLists_charges (i := 2 * m) rfl (by decide) (by decide) hs₁
    rw [Nat.succ_mul] at hm ⊢
    exact hcharges.both hcharges' (ih (by omega) hs₀) hm

/-- The last list takes the loads of its parity servers around to zero. -/
theorem not_loadsWithin_of_full :
    ¬∀ (params : StripeListParams ℕ) (allocated : ℕ → ℕ → ℕ) (rand : ℕ → ℕ) (fuel : ℕ)
      (s : StripeList ℕ), params.useAlgo = true → params.k < params.n →
        params.n ≤ params.numServers → construct params allocated rand fuel = some s →
          LoadsWithin s.numServers s.k s.load := by
  intro h
  obtain ⟨fuel, s, hs⟩ : ∃ enough s, ∀ fuel ≥ enough,
      construct fullParams (fun _ _ => 0) id fuel = some s :=
    exists_construct (by decide) (by decide) (by decide) (Or.inl rfl)
  have hs := hs fuel le_rfl
  have hwithin := h fullParams _ id fuel s rfl (by decide) (by decide) hs
  obtain ⟨s₀, parity, data, hs₀, hcharges⟩ :=
    afterLists_charges (i := 2 * 715827882) rfl (by decide) (by decide) hs
  have hmarking := afterLists_marking (by decide) (by decide) hs
  obtain ⟨hparity, hdata⟩ := hcharges.half (fullParams_loads (by decide) hs₀)
  obtain ⟨x, hx⟩ : parity.Nonempty := Finset.card_pos.mp (by rw [hcharges.cardParity]; decide)
  obtain ⟨y, hy⟩ : data.Nonempty := Finset.card_pos.mp (by rw [hcharges.cardData]; decide)
  have hlt : ∀ j ∈ data ∪ parity, j < s.numServers := by
    rw [hmarking.numServers_eq]
    exact fun j hj => Finset.mem_range.mp (hcharges.subset hj)
  have hle := hwithin y (hlt y (Finset.mem_union_left _ hy)) x (hlt x (Finset.mem_union_right _ hx))
  rw [hparity x hx, hdata y hy, hmarking.k_eq] at hle
  exact absurd hle (by decide)

end Full

end StripeList

end MemEC.Common
