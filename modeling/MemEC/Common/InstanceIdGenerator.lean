import MemEC.Lib.Run
import Mathlib.Data.List.AList
import Mathlib.Order.Interval.Finset.Nat

/-!
# Instance ids

The generator goes on from the id that it has given last to the next one that is
not in use. Id 0 is reserved. The loop looks for an id for as long as it has not
found one.
-/

namespace MemEC.Common

open MemEC.Lib

/-- `InstanceIdGenerator`. The sockets are those of the instances that have an id. -/
structure InstanceIdGenerator (Socket : Type) where
  current : UInt16
  mapping : AList fun _ : UInt16 => Socket

namespace InstanceIdGenerator

variable {Socket : Type}

def init : InstanceIdGenerator Socket := ⟨0, ∅⟩

/-- The id behind `current`, without the reserved instance id. -/
def nextId (current : UInt16) : UInt16 := if current + 1 = 0 then current + 1 + 1 else current + 1

/-- At most `fuel` rounds of the loop of `generate`. -/
def generateLoop (mapping : AList fun _ : UInt16 => Socket) : ℕ → UInt16 → Option UInt16
  | 0, _ => none
  | fuel + 1, current =>
    if (mapping.lookup (nextId current)).isSome then generateLoop mapping fuel (nextId current)
    else some (nextId current)

variable (g : InstanceIdGenerator Socket)

/-- `generate`, with `none` if the loop has not ended after `fuel` rounds. -/
def generate (fuel : ℕ) (socket : Socket) : Option (InstanceIdGenerator Socket × UInt16) :=
  (generateLoop g.mapping fuel g.current).map fun current =>
    (⟨current, g.mapping.insert current socket⟩, current)

/-- `release`. -/
def release (instanceId : UInt16) : InstanceIdGenerator Socket × Bool :=
  match g.mapping.lookup instanceId with
  | some _ => ({ g with mapping := g.mapping.erase instanceId }, true)
  | none => (g, false)

/-- What instances do. -/
inductive Op (Socket : Type)
  | generate (socket : Socket)
  | release (instanceId : UInt16)

/-- One call, in at most the rounds that try every id. Behind a call that does not return there is no
other, as it keeps the lock. -/
def step : Op Socket → Option (InstanceIdGenerator Socket)
  | .generate socket => (g.generate 65535 socket).map Prod.fst
  | .release instanceId => some (g.release instanceId).1

/-! ## The ids in their order -/

theorem toNat_nextId (x : UInt16) :
    (nextId x).toNat = if x.toNat = 65535 then 1 else x.toNat + 1 := by
  have hlt := x.toNat_lt
  have hadd : (x + 1).toNat = (x.toNat + 1) % 65536 := UInt16.toNat_add x 1
  have hzero : x + 1 = 0 ↔ (x + 1).toNat = 0 := by rw [← UInt16.toNat_inj]; rfl
  have htwo : (x + 1 + 1).toNat = ((x + 1).toNat + 1) % 65536 := UInt16.toNat_add (x + 1) 1
  unfold nextId
  by_cases h : x + 1 = 0
  · have h0 := hzero.mp h
    rw [if_pos h, if_pos (by omega)]
    omega
  · have h0 := mt hzero.mpr h
    rw [if_neg h, if_neg (by omega)]
    omega

theorem nextId_ne_zero (x : UInt16) : nextId x ≠ 0 := by
  intro h
  have hnext := toNat_nextId x
  rw [h] at hnext
  split_ifs at hnext
  · cases hnext
  · cases hnext

/-- After `k + 1` rounds. -/
theorem toNat_iterate_nextId (x : UInt16) (k : ℕ) :
    (nextId^[k + 1] x).toNat = (x.toNat + k) % 65535 + 1 := by
  have hlt := x.toNat_lt
  induction k with
  | zero =>
    rw [Function.iterate_one, toNat_nextId]
    split_ifs <;> omega
  | succ k ih =>
    rw [Function.iterate_succ_apply', toNat_nextId, ih]
    split_ifs <;> omega

/-- From everywhere the loop comes to every id. -/
theorem exists_iterate_nextId (x : UInt16) {y : UInt16} (hy : y ≠ 0) :
    ∃ k < 65535, nextId^[k + 1] x = y := by
  have hlt := y.toNat_lt
  have hpos : y.toNat ≠ 0 := fun h => hy (UInt16.toNat_inj.mp h)
  refine ⟨(y.toNat - 1 + 65535 - x.toNat % 65535) % 65535, Nat.mod_lt _ (by norm_num), ?_⟩
  rw [← UInt16.toNat_inj, toNat_iterate_nextId]
  omega

variable {g} {g' : InstanceIdGenerator Socket} {mapping : AList fun _ : UInt16 => Socket}

/-- The loop ends with an unused id when one is within reach. -/
theorem generateLoop_of_unused {fuel k : ℕ} {x : UInt16} (hk : k < fuel)
    (hfree : nextId^[k + 1] x ∉ mapping) :
    ∃ y, generateLoop mapping fuel x = some y ∧ y ≠ 0 ∧ y ∉ mapping := by
  induction fuel generalizing k x with
  | zero => exact absurd hk (Nat.not_lt_zero k)
  | succ fuel ih =>
    by_cases hused : nextId x ∈ mapping
    · have hloop : generateLoop mapping (fuel + 1) x = generateLoop mapping fuel (nextId x) :=
        if_pos (AList.lookup_isSome.mpr hused)
      cases k with
      | zero => exact absurd hused hfree
      | succ k =>
        rw [hloop]
        exact ih (Nat.lt_of_succ_lt_succ hk) hfree
    · have hloop : generateLoop mapping (fuel + 1) x = some (nextId x) :=
        if_neg fun h => hused (AList.lookup_isSome.mp h)
      exact ⟨nextId x, hloop, nextId_ne_zero x, hused⟩

/-- Without an unused id the loop does not end. -/
theorem generateLoop_of_full (hfull : ∀ y ≠ 0, y ∈ mapping) (fuel : ℕ) (x : UInt16) :
    generateLoop mapping fuel x = none := by
  induction fuel generalizing x with
  | zero => rfl
  | succ fuel ih =>
    have hused := hfull (nextId x) (nextId_ne_zero x)
    exact (if_pos (AList.lookup_isSome.mpr hused)).trans (ih (nextId x))

/-! ## Counting the ids -/

/-- The ids in use, as numbers. -/
theorem card_keys (mapping : AList fun _ : UInt16 => Socket) :
    (mapping.keys.map UInt16.toNat).toFinset.card = mapping.keys.length := by
  rw [List.toFinset_card_of_nodup, List.length_map]
  exact mapping.keys_nodup.map fun _ _ => UInt16.toNat_inj.mp

theorem keys_subset (hzero : 0 ∉ mapping) :
    (mapping.keys.map UInt16.toNat).toFinset ⊆ Finset.Icc 1 65535 := by
  intro n hn
  obtain ⟨id, hid, rfl⟩ := List.mem_map.mp (List.mem_toFinset.mp hn)
  have hlt := id.toNat_lt
  have hne : id.toNat ≠ 0 := by
    intro h
    have hid0 : id = 0 := UInt16.toNat_inj.mp h
    exact hzero (hid0 ▸ hid)
  exact Finset.mem_Icc.mpr ⟨by omega, by omega⟩

/-- As long as not all ids are in use, there is an unused one. -/
theorem exists_unused (hlt : mapping.keys.length < 65535) : ∃ y ≠ 0, y ∉ mapping := by
  have hcard : (mapping.keys.map UInt16.toNat).toFinset.card < (Finset.Icc 1 65535).card := by
    rw [card_keys, Nat.card_Icc]
    exact hlt
  obtain ⟨n, hn, hnot⟩ := Finset.exists_mem_notMem_of_card_lt_card hcard
  obtain ⟨hpos, hle⟩ := Finset.mem_Icc.mp hn
  have hback : (UInt16.ofNat n).toNat = n := UInt16.toNat_ofNat_of_lt (by
    change n < 65536
    omega)
  refine ⟨UInt16.ofNat n, fun h => ?_, fun h => hnot ?_⟩
  · rw [h] at hback
    change 0 = n at hback
    omega
  · exact List.mem_toFinset.mpr (List.mem_map.mpr ⟨_, h, hback⟩)

/-- There are no more ids than that. -/
theorem all_used (hzero : 0 ∉ mapping) (hle : 65535 ≤ mapping.keys.length) :
    ∀ y ≠ 0, y ∈ mapping := by
  intro y hy
  have hall : (mapping.keys.map UInt16.toNat).toFinset = Finset.Icc 1 65535 := by
    refine Finset.eq_of_subset_of_card_le (keys_subset hzero) ?_
    rw [card_keys, Nat.card_Icc]
    exact hle
  have hlt := y.toNat_lt
  have hne : y.toNat ≠ 0 := fun h => hy (UInt16.toNat_inj.mp h)
  have hmem : y.toNat ∈ (mapping.keys.map UInt16.toNat).toFinset := by
    rw [hall]
    exact Finset.mem_Icc.mpr ⟨by omega, by omega⟩
  obtain ⟨id, hid, heq⟩ := List.mem_map.mp (List.mem_toFinset.mp hmem)
  exact UInt16.toNat_inj.mp heq ▸ hid

/-! ## Runs -/

/-- What `generate` is to return: an unused id, or 0 for a failure when there is none. -/
def Answers (g : InstanceIdGenerator Socket) (r : InstanceIdGenerator Socket × UInt16) : Prop :=
  if g.mapping.keys.length < 65535 then r.2 ≠ 0 ∧ r.2 ∉ g.mapping ∧ r.2 ∈ r.1.mapping else r.2 = 0

theorem generate_of_unused (hlt : g.mapping.keys.length < 65535) (socket : Socket) :
    ∃ r, g.generate 65535 socket = some r ∧ r.2 ≠ 0 ∧ r.2 ∉ g.mapping ∧
      r.1.mapping = g.mapping.insert r.2 socket := by
  obtain ⟨y, hy, hfree⟩ := exists_unused hlt
  obtain ⟨k, hk, rfl⟩ := exists_iterate_nextId g.current hy
  obtain ⟨id, hid, hne, hnew⟩ := generateLoop_of_unused hk hfree
  exact ⟨_, congrArg (Option.map _) hid, hne, hnew, rfl⟩

/-- With all ids in use no call returns. -/
theorem generate_of_full (hzero : 0 ∉ g.mapping) (hle : 65535 ≤ g.mapping.keys.length) (fuel : ℕ)
    (socket : Socket) : g.generate fuel socket = none :=
  congrArg (Option.map _) (generateLoop_of_full (all_used hzero hle) fuel g.current)

theorem step_zero (h : 0 ∉ g.mapping) {op : Op Socket} (hg' : g.step op = some g') :
    0 ∉ g'.mapping := by
  cases op with
  | generate socket =>
    obtain ⟨r, hr, rfl⟩ := Option.map_eq_some_iff.mp hg'
    by_cases hlt : g.mapping.keys.length < 65535
    · obtain ⟨r', hr', hne, -, hmapping⟩ := generate_of_unused hlt socket
      obtain rfl := Option.some.inj (hr.symm.trans hr')
      rw [hmapping]
      exact fun hmem => ((AList.mem_insert _).mp hmem).elim (fun h0 => hne h0.symm) h
    · rw [generate_of_full h (Nat.not_lt.mp hlt)] at hr
      cases hr
  | release instanceId =>
    obtain rfl := Option.some.inj hg'
    unfold release
    split
    · exact fun hmem => h (AList.mem_erase.mp hmem).2
    · exact h

theorem run_zero {ops : List (Op Socket)} (hg : tryRun step init ops = some g) : 0 ∉ g.mapping :=
  tryRun_preserves (fun g => 0 ∉ g.mapping) (AList.notMem_empty _)
    (fun _ _ _ h hstep => step_zero h hstep) hg

/-- Without a release every id comes into use. -/
theorem exists_run_length (socket : Socket) {k : ℕ} (hk : k ≤ 65535) :
    ∃ g, tryRun step init (List.replicate k (.generate socket)) = some g ∧
      g.mapping.keys.length = k := by
  induction k with
  | zero => exact ⟨init, rfl, rfl⟩
  | succ k ih =>
    obtain ⟨g, hg, hlen⟩ := ih (Nat.le_of_succ_le hk)
    obtain ⟨r, hr, -, hnew, hmapping⟩ := generate_of_unused (g := g) (by omega) socket
    refine ⟨r.1, ?_, ?_⟩
    · rw [List.replicate_succ', tryRun_concat, hg]
      exact congrArg (Option.map Prod.fst) hr
    · rw [hmapping, AList.keys_insert, List.erase_of_not_mem hnew, List.length_cons, hlen]

/-- In every state that a run reaches, the ids in use are different from each other and from 0, and
`generate` returns what it is to return exactly if not all of them are in use. -/
theorem answers_iff (ops : List (Op Socket)) (hg : tryRun step init ops = some g)
    (socket : Socket) : g.mapping.keys.Nodup ∧ 0 ∉ g.mapping ∧
      ((∃ fuel r, g.generate fuel socket = some r ∧ g.Answers r) ↔
        g.mapping.keys.length < 65535) := by
  have hzero : 0 ∉ g.mapping := run_zero hg
  refine ⟨g.mapping.keys_nodup, hzero, ?_, fun hlt => ?_⟩
  · rintro ⟨fuel, r, hr, -⟩
    by_contra hle
    rw [generate_of_full hzero (Nat.not_lt.mp hle)] at hr
    cases hr
  · obtain ⟨r, hr, hne, hnew, hmapping⟩ := generate_of_unused hlt socket
    refine ⟨65535, r, hr, ?_⟩
    rw [Answers, if_pos hlt, hmapping]
    exact ⟨hne, hnew, (AList.mem_insert _).mpr (.inl rfl)⟩

theorem answers_of_released : ∃ g : InstanceIdGenerator Unit,
    tryRun step init [.generate (), .generate (), .release 1] = some g ∧
      g.mapping.keys = [2] ∧ ∃ fuel r, g.generate fuel () = some r ∧ g.Answers r :=
  ⟨_, rfl, rfl, (answers_iff [.generate (), .generate (), .release 1] rfl ()).2.2.mpr (by decide)⟩

/-- The call behind 65535 calls without a release does not return. -/
theorem not_answers_of_full : ¬ ∀ (ops : List (Op Unit)) (g : InstanceIdGenerator Unit),
    tryRun step init ops = some g → ∃ fuel r, g.generate fuel () = some r ∧ g.Answers r := by
  intro hall
  obtain ⟨g, hg, hlen⟩ := exists_run_length () le_rfl
  obtain ⟨fuel, r, hr, -⟩ := hall _ g hg
  rw [generate_of_full (run_zero hg) hlen.ge] at hr
  cases hr

end InstanceIdGenerator

end MemEC.Common
