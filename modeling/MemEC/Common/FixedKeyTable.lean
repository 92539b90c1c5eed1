import MemEC.Common.CuckooHashSpec
import MemEC.Lib.Run

/-!
# Tables with keys of a fixed size

A table whose `keySize` is not `0` serves as a dictionary: the caller inserts
pointers to memory that starts with their keys, deletes keys, and may change the
memory in between as long as the keys of the entries stay as they are. The
dictionary says which pointer was inserted last under each key.
-/

namespace MemEC.Common

open MemEC.Lib Slots CuckooHash

/-- What the caller does. -/
inductive TableOp
  | insert (key : List UInt8) (ptr : ℕ)
  | del (key : List UInt8)
  | store (m : Memory)

/-- A table, the memory that it points to, and the dictionary that it stands for. -/
structure FixedKeyTable (shape : TableShape) where
  table : CuckooHash shape
  m : Memory
  dict : List UInt8 → Option ℕ

namespace FixedKeyTable

variable {cfg : GlobalConfig} {shape : TableShape} {rand : ℕ → ℕ} {s : FixedKeyTable shape}

/-- A new table. -/
def start (shape : TableShape) (m : Memory) : FixedKeyTable shape := ⟨.init shape, m, fun _ => none⟩

/-- One operation. An insertion that fails changes nothing in the dictionary. -/
def step (cfg : GlobalConfig) (rand : ℕ → ℕ) (s : FixedKeyTable shape) :
    TableOp → Option (FixedKeyTable shape)
  | .insert key ptr =>
    (s.table.insert cfg s.m rand (.plain key) ptr).map fun r =>
      { s with
        table := r.1
        dict := if r.2 then Function.update s.dict key (some ptr) else s.dict }
  | .del key => some { s with
      table := s.table.del cfg s.m (.plain key)
      dict := Function.update s.dict key none }
  | .store m => some { s with m := m }

/-- Keys have the size of the table's keys, a key is inserted with a pointer to it and only while
it is not in the table, and the memory of the entries' keys stays as it is. -/
def Allowed (s : FixedKeyTable shape) : TableOp → Prop
  | .insert key ptr => ptr ≠ 0 ∧ s.m.read ptr shape.keySize = key ∧ s.dict key = none
  | .del key => key.length = shape.keySize
  | .store m => ∀ key ptr, s.dict key = some ptr →
      m.read ptr shape.keySize = s.m.read ptr shape.keySize

/-- The state after the operations. -/
def after (cfg : GlobalConfig) (rand : ℕ → ℕ) (s : FixedKeyTable shape) (ops : List TableOp) :
    Option (FixedKeyTable shape) := tryRun (step cfg rand) s ops

/-- The two buckets of an entry. -/
def homes (s : FixedKeyTable shape) (ptr i : ℕ) : Prop :=
  shape.Homes (HashFunc.hash (s.m.read ptr shape.keySize)) i

structure Inv (s : FixedKeyTable shape) : Prop where
  once : s.table.buckets.Once
  housed : s.table.buckets.Housed s.homes
  has_iff : ∀ ptr, s.table.buckets.Has ptr ↔ ∃ key, s.dict key = some ptr
  key_eq : ∀ key ptr, s.dict key = some ptr → s.m.read ptr shape.keySize = key

theorem hashValue_plain (key : List UInt8) : (Key.plain key).hashValue = HashFunc.hash key := by
  simp [Key.hashValue, Key.plain]

theorem isEqual_plain (hsize : shape.keySize ≠ 0) {m : Memory} {key : List UInt8} {ptr : ℕ}
    (hkey : key.length = shape.keySize) :
    isEqual cfg shape m (.plain key) ptr = true ↔ m.read ptr shape.keySize = key := by
  have htake : key.take shape.keySize = key := by rw [← hkey, List.take_length]
  rw [isEqual, if_neg hsize, decide_eq_true_eq]
  exact iff_of_eq (congrArg _ htake)

/-- An entry is relocated by the hash of its key. -/
theorem faithful (hsize : shape.keySize ≠ 0) (R : ℕ → Prop) (s : FixedKeyTable shape) :
    Faithful (altOf cfg shape s.m) R s.homes s.table.buckets := by
  intro a _ _ b hb
  have hreloc : relocationHash cfg shape s.m (s.table.buckets a) =
      HashFunc.hash (s.m.read (s.table.buckets a) shape.keySize) := by
    rw [relocationHash, if_neg hsize]
  unfold altOf homes
  rw [hreloc]
  exact TableShape.Homes.alt shape (HashFunc.hash_lt _) hb

theorem Inv.start (m : Memory) : (start shape m).Inv where
  once a b ha := absurd rfl ha
  housed a ha := absurd rfl ha
  has_iff ptr := by
    constructor
    · rintro ⟨hp, a, ha⟩
      exact absurd ha.symm hp
    · rintro ⟨key, hkey⟩
      cases hkey
  key_eq key ptr h := by cases h

/-- An entry of the table is the one under its key. -/
theorem Inv.dict_eq (h : s.Inv) {ptr : ℕ} (hp : s.table.buckets.Has ptr) :
    s.dict (s.m.read ptr shape.keySize) = some ptr := by
  obtain ⟨key, hkey⟩ := (h.has_iff ptr).mp hp
  rwa [h.key_eq key ptr hkey]

/-- `find` returns what the dictionary says. -/
theorem Inv.find_eq (h : s.Inv) (hsize : shape.keySize ≠ 0) {key : List UInt8}
    (hkey : key.length = shape.keySize) : s.table.find cfg s.m (.plain key) = s.dict key := by
  cases hfind : s.table.find cfg s.m (.plain key) with
  | some ptr =>
    obtain ⟨hhas, heq⟩ := find_eq_some hfind
    rw [isEqual_plain hsize hkey] at heq
    have hdict := h.dict_eq hhas
    rw [heq] at hdict
    exact hdict.symm
  | none =>
    cases hdict : s.dict key with
    | none => rfl
    | some ptr =>
      obtain ⟨hne, a, rfl⟩ := (h.has_iff ptr).mpr ⟨key, hdict⟩
      have hread := h.key_eq key _ hdict
      have hhome := h.housed a hne
      rw [homes, hread, ← hashValue_plain] at hhome
      have hfalse := find_eq_none hfind hhome hne
      rw [(isEqual_plain hsize hkey).mpr hread] at hfalse
      cases hfalse

theorem Inv.insert (h : s.Inv) (hsize : shape.keySize ≠ 0) {key : List UInt8} {ptr : ℕ}
    (ha : s.Allowed (.insert key ptr)) :
    ∃ s', step cfg rand s (.insert key ptr) = some s' ∧ s'.Inv := by
  obtain ⟨hne, hread, hnone⟩ := ha
  have hnew : ¬s.table.buckets.Has ptr := by
    intro hhas
    have hdict := h.dict_eq hhas
    rw [hread, hnone] at hdict
    cases hdict
  obtain ⟨t', ok, ht', hins⟩ := insert_spec cfg s.m rand s.table (.plain key) ptr
    (closed_reach_altOf _ _) Relation.ReflTransGen.refl
  rw [hashValue_plain] at hins
  refine ⟨_, by rw [step, ht']; rfl, ?_⟩
  constructor
  · exact hins.once h.once hnew
  · refine hins.housed h.housed ?_ ?_ fun _ _ => faithful hsize _ s
    · exact Or.inl (by rw [hread])
    · exact Or.inr (by rw [hread])
  · intro q
    dsimp only
    rw [hins.has_iff hne, h.has_iff]
    cases ok with
    | false => simp
    | true =>
      simp only [if_true, true_and]
      constructor
      · rintro (⟨key', hkey'⟩ | rfl)
        · refine ⟨key', ?_⟩
          rw [Function.update_of_ne, hkey']
          rintro rfl
          rw [hnone] at hkey'
          cases hkey'
        · exact ⟨key, Function.update_self ..⟩
      · rintro ⟨key', hkey'⟩
        rw [Function.update_apply] at hkey'
        split_ifs at hkey' with hk
        · exact Or.inr (Option.some.inj hkey').symm
        · exact Or.inl ⟨key', hkey'⟩
  · intro key' q hq
    dsimp only at hq ⊢
    cases ok with
    | false => exact h.key_eq key' q hq
    | true =>
      rw [if_pos rfl, Function.update_apply] at hq
      split_ifs at hq with hk
      · rw [← Option.some.inj hq, hread, hk]
      · exact h.key_eq key' q hq

theorem Inv.del (h : s.Inv) (hsize : shape.keySize ≠ 0) {key : List UInt8}
    (ha : s.Allowed (.del key)) : ∃ s', step cfg rand s (.del key) = some s' ∧ s'.Inv := by
  have hkey : key.length = shape.keySize := ha
  have hupdate : ∀ key' q, Function.update s.dict key none key' = some q ↔
      s.dict key' = some q ∧ key' ≠ key := by
    intro key' q
    rw [Function.update_apply]
    split_ifs with hk
    · simp [hk]
    · simp [hk]
  refine ⟨_, rfl, ?_⟩
  rcases del_cases cfg s.m s.table (.plain key) with ⟨a, hfind, hdel⟩ | ⟨hfind, hdel⟩
  · -- The deleted entry is the one that the dictionary has under the key.
    have heq := (isEqual_plain hsize hkey).mp (find_eq_some hfind).2
    have hdict := (h.find_eq hsize hkey).symm.trans hfind
    constructor
    · dsimp only
      rw [hdel]
      exact h.once.clear
    · dsimp only
      rw [hdel]
      exact h.housed.clear
    · intro q
      dsimp only
      rw [hdel, has_clear h.once, h.has_iff]
      simp only [hupdate]
      constructor
      · rintro ⟨⟨key', hkey'⟩, hqa⟩
        refine ⟨key', hkey', ?_⟩
        rintro rfl
        rw [hdict] at hkey'
        exact hqa (Option.some.inj hkey').symm
      · rintro ⟨key', hkey', hk⟩
        refine ⟨⟨key', hkey'⟩, ?_⟩
        rintro rfl
        exact hk ((h.key_eq key' _ hkey').symm.trans heq)
    · exact fun key' q hq => h.key_eq key' q ((hupdate key' q).mp hq).1
  · have hnone := (h.find_eq hsize hkey).symm.trans hfind
    constructor
    · dsimp only
      rw [hdel]
      exact h.once
    · dsimp only
      rw [hdel]
      exact h.housed
    · intro q
      dsimp only
      rw [hdel, h.has_iff]
      simp only [hupdate]
      refine exists_congr fun key' => ⟨fun hq => ⟨hq, ?_⟩, And.left⟩
      rintro rfl
      rw [hnone] at hq
      cases hq
    · exact fun key' q hq => h.key_eq key' q ((hupdate key' q).mp hq).1

theorem Inv.store (h : s.Inv) {m : Memory} (ha : s.Allowed (.store m)) :
    ∃ s', step cfg rand s (.store m) = some s' ∧ s'.Inv := by
  refine ⟨_, rfl, ?_⟩
  constructor
  · exact h.once
  · intro a hne
    obtain ⟨key, hkey⟩ := (h.has_iff _).mp ⟨hne, a, rfl⟩
    have hread := ha key _ hkey
    have hhome := h.housed a hne
    unfold homes at hhome ⊢
    rwa [hread]
  · exact h.has_iff
  · intro key ptr hkey
    exact (ha key ptr hkey).trans (h.key_eq key ptr hkey)

theorem Inv.step (h : s.Inv) (hsize : shape.keySize ≠ 0) {op : TableOp} (ha : s.Allowed op) :
    ∃ s', step cfg rand s op = some s' ∧ s'.Inv := by
  cases op with
  | insert key ptr => exact h.insert hsize ha
  | del key => exact h.del hsize ha
  | store m => exact h.store ha

/-- What the claim of a dictionary amounts to: no assertion fails, `find` agrees with the
dictionary, and every entry of the dictionary is in the table exactly once, and nothing else. -/
structure Correct (cfg : GlobalConfig) (s : FixedKeyTable shape) : Prop where
  find_eq : ∀ key : List UInt8, key.length = shape.keySize →
    s.table.find cfg s.m (.plain key) = s.dict key
  has_iff : ∀ ptr, s.table.buckets.Has ptr ↔ ∃ key, s.dict key = some ptr
  once : s.table.buckets.Once

/-- Every run of insertions of keys that are not in the table and of deletions. -/
theorem correct_after (cfg : GlobalConfig) (rand : ℕ → ℕ) (m : Memory) (ops : List TableOp)
    (hsize : shape.keySize ≠ 0)
    (hallowed : ∀ n op s, ops[n]? = some op →
      after cfg rand (start shape m) (ops.take n) = some s → s.Allowed op) :
    ∃ s, after cfg rand (start shape m) ops = some s ∧ s.Correct cfg := by
  obtain ⟨s, hs, h⟩ := tryRun_invariant Inv Allowed (Inv.start m)
    (fun s op hs ha => hs.step hsize ha) ops hallowed
  exact ⟨s, hs, fun key hkey => h.find_eq hsize hkey, h.has_iff, h.once⟩

/-- Two buckets, for keys of one byte. -/
def sampleShape : TableShape where
  hashPower := 1
  keySize := 1
  hashPower_pos := Nat.one_pos
  hashPower_lt := by norm_num
  keySize_le := by norm_num

/-- The key `k` is at the address `k`. Both buckets of an odd key are the second one. -/
def sampleMemory : Memory := fun i => UInt8.ofNat i

/-- The last key displaces the first one. -/
def sampleOps : List TableOp :=
  [.insert [2] 2, .insert [1] 1, .insert [3] 3, .insert [5] 5, .del [3], .insert [3] 3,
    .insert [7] 7]

theorem correct_after_sample : ∃ s, after .smallest (fun _ => 0) (start sampleShape sampleMemory)
    sampleOps = some s ∧ s.Correct .smallest := by
  refine correct_after .smallest (fun _ => 0) sampleMemory sampleOps (by decide) ?_
  have hcheck : ∀ n < 7, ∀ op, sampleOps[n]? = some op →
      ((after .smallest (fun _ => 0) (start sampleShape sampleMemory) (sampleOps.take n)).map
        fun s => match op with
          | .insert key ptr => decide (ptr ≠ 0 ∧ s.m.read ptr 1 = key ∧ s.dict key = none)
          | .del key => decide (key.length = 1)
          | .store _ => false) = some true := by
    intro n hn op hop
    interval_cases n <;> cases hop <;> decide +kernel
  intro n op s hop hs
  have hn : n < 7 := (List.getElem?_eq_some_iff.mp hop).1
  have h := hcheck n hn op hop
  rw [hs] at h
  cases op with
  | insert key ptr =>
    have hins : ptr ≠ 0 ∧ s.m.read ptr 1 = key ∧ s.dict key = none :=
      of_decide_eq_true (Option.some.inj h)
    exact hins
  | del key =>
    have hdel : key.length = 1 := of_decide_eq_true (Option.some.inj h)
    exact hdel
  | store m => cases h

end FixedKeyTable

end MemEC.Common
