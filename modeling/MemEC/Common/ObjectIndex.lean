import MemEC.Common.CuckooHashSpec
import MemEC.Lib.Run

/-!
# The object index

A table with `keySize = 0` is an index of objects: an entry points to an object,
and its key is the object's own, with the split offset when the object is a
split of a large one. `find` computes the buckets of an entry from that key. A
displacement recomputes them from the bytes of the object, and for a large
object it takes other bytes.
-/

namespace MemEC.Common

open MemEC.Lib Slots CuckooHash

/-- The parameters of an index. -/
structure IndexShape extends TableShape where
  keySize_eq : keySize = 0

/-- The index of `Map`: `HASHPOWER_DEFAULT` is `25`. -/
def IndexShape.default : IndexShape where
  hashPower := 25
  keySize := 0
  hashPower_pos := by norm_num
  hashPower_lt := by norm_num
  keySize_le := by norm_num
  keySize_eq := rfl

/-- The buckets that `find` computes for the key of an object. -/
def ownHomes (cfg : GlobalConfig) (shape : IndexShape) (m : Memory) (ptr i : ℕ) : Prop :=
  shape.Homes (KeyValue.key cfg m ptr).hashValue i

/-- The entries of large objects that a path from bucket `i` can reach are displaced from home to
home. -/
def LargeFaithful (cfg : GlobalConfig) (shape : IndexShape) (m : Memory)
    (t : CuckooHash shape.toTableShape) (i : ℕ) : Prop :=
  ∀ a, Reach (altOf cfg shape.toTableShape m) t.buckets i a.1 → t.buckets a ≠ 0 →
    (KeyValue.key cfg m (t.buckets a)).isLarge = true →
    ∀ b, ownHomes cfg shape m (t.buckets a) b →
      ownHomes cfg shape m (t.buckets a) (altOf cfg shape.toTableShape m (t.buckets a) b)

/-- An insertion that keeps the entries at home: the key has the hash of the object's own key, and
no large object has to be displaced out of its homes. -/
structure InsertOk (cfg : GlobalConfig) (shape : IndexShape) (m : Memory)
    (t : CuckooHash shape.toTableShape) (key : Key) (ptr : ℕ) : Prop where
  ptr_ne : ptr ≠ 0
  hash_eq : key.hashValue = (KeyValue.key cfg m ptr).hashValue
  large : t.buckets.Full (shape.bucket₁ key.hashValue) →
    t.buckets.Full (shape.bucket₂ key.hashValue) →
    LargeFaithful cfg shape m t (shape.bucket₂ key.hashValue)

section

variable {cfg : GlobalConfig} {shape : IndexShape} {m : Memory} {rand : ℕ → ℕ}
  {t : CuckooHash shape.toTableShape} {key : Key} {ptr : ℕ}

theorem isEqual_index (key : Key) (ptr : ℕ) :
    isEqual cfg shape.toTableShape m key ptr = (KeyValue.key cfg m ptr).equal key := by
  rw [isEqual, if_pos shape.keySize_eq]

/-- The hash of a plain object is recomputed as it was. -/
theorem relocationHash_of_plain (h : (KeyValue.key cfg m ptr).isLarge = false) :
    relocationHash cfg shape.toTableShape m ptr = (KeyValue.key cfg m ptr).hashValue := by
  have hl : LargeObjectUtil.isLarge cfg (KeyValue.deserialize cfg m ptr).keySize
      (KeyValue.deserialize cfg m ptr).valueSize = false := h
  rw [relocationHash, if_pos shape.keySize_eq]
  simp only [hl, Bool.false_eq_true, if_false]
  simp [Key.hashValue, KeyValue.key, Key.ofMemory, hl, Key.extent]

theorem ownHomes_altOf_of_plain (h : (KeyValue.key cfg m ptr).isLarge = false) {i : ℕ}
    (hi : ownHomes cfg shape m ptr i) :
    ownHomes cfg shape m ptr (altOf cfg shape.toTableShape m ptr i) := by
  unfold ownHomes altOf at *
  rw [relocationHash_of_plain h]
  exact hi.alt shape.toTableShape (Key.hashValue_lt _)

theorem LargeFaithful.faithful {i : ℕ} (h : LargeFaithful cfg shape m t i) :
    Faithful (altOf cfg shape.toTableShape m) (Reach (altOf cfg shape.toTableShape m) t.buckets i)
      (ownHomes cfg shape m) t.buckets := by
  intro a hR ha b hb
  cases hlarge : (KeyValue.key cfg m (t.buckets a)).isLarge with
  | true => exact h a hR ha hlarge b hb
  | false => exact ownHomes_altOf_of_plain hlarge hb

/-- An insertion that is allowed adds its entry, if there is room, and keeps all at home. -/
theorem InsertOk.spec (h : InsertOk cfg shape m t key ptr) (rand : ℕ → ℕ)
    (ht : t.buckets.Housed (ownHomes cfg shape m)) :
    ∃ t' ok, t.insert cfg m rand key ptr = some (t', ok) ∧
      t'.buckets.Housed (ownHomes cfg shape m) ∧
      ∀ q, t'.buckets.Has q ↔ t.buckets.Has q ∨ (ok = true ∧ q = ptr) := by
  obtain ⟨t', ok, ht', hins⟩ := insert_spec cfg m rand t key ptr (closed_reach_altOf _ _)
    Relation.ReflTransGen.refl
  refine ⟨t', ok, ht', ?_, fun q => hins.has_iff h.ptr_ne⟩
  have h₁ : ownHomes cfg shape m ptr (shape.bucket₁ key.hashValue) := Or.inl (by rw [h.hash_eq])
  have h₂ : ownHomes cfg shape m ptr (shape.bucket₂ key.hashValue) := Or.inr (by rw [h.hash_eq])
  exact hins.housed ht h₁ h₂ fun f₁ f₂ => (h.large f₁ f₂).faithful

/-- The entries that are to be in the table after the insertion are there. -/
theorem InsertOk.has_live (h : InsertOk cfg shape m t key ptr) (rand : ℕ → ℕ)
    (ht : t.buckets.Housed (ownHomes cfg shape m)) {live : List ℕ}
    (hlive : ∀ q ∈ live, t.buckets.Has q) :
    ∃ t' ok, t.insert cfg m rand key ptr = some (t', ok) ∧
      t'.buckets.Housed (ownHomes cfg shape m) ∧
      ∀ q ∈ if ok then ptr :: live else live, t'.buckets.Has q := by
  obtain ⟨t', ok, ht', hhoused, hhas⟩ := h.spec rand ht
  refine ⟨t', ok, ht', hhoused, fun q hq => (hhas q).mpr ?_⟩
  cases ok with
  | false => exact Or.inl (hlive q hq)
  | true =>
    rcases List.mem_cons.mp hq with rfl | hq
    · exact Or.inr ⟨rfl, rfl⟩
    · exact Or.inl (hlive q hq)

/-- A change of the memory that leaves the keys of the entries alone keeps them at home. -/
theorem housed_congr {m' : Memory} (ht : t.buckets.Housed (ownHomes cfg shape m))
    (hm : ∀ q, t.buckets.Has q → KeyValue.key cfg m' q = KeyValue.key cfg m q) :
    t.buckets.Housed (ownHomes cfg shape m') := by
  intro a ha
  have hhome := ht a ha
  unfold ownHomes at hhome ⊢
  rwa [hm _ ⟨ha, a, rfl⟩]

/-- A deletion takes at most the entry that `find` returns, and keeps the others at home. -/
theorem housed_del (cfg : GlobalConfig) (m : Memory) (key : Key) {homes : ℕ → ℕ → Prop}
    (ht : t.buckets.Housed homes) : (t.del cfg m key).buckets.Housed homes := by
  rcases del_cases cfg m t key with ⟨a, -, hdel⟩ | ⟨-, hdel⟩
  · rw [hdel]
    exact ht.clear
  · rwa [hdel]

theorem has_del {q : ℕ} (hq : t.buckets.Has q) (hne : t.find cfg m key ≠ some q) :
    (t.del cfg m key).buckets.Has q := by
  rcases del_cases cfg m t key with ⟨a, hfind, hdel⟩ | ⟨-, hdel⟩
  · rw [hdel]
    obtain ⟨hq0, b, rfl⟩ := hq
    refine ⟨hq0, b, put_of_ne _ _ ?_⟩
    rintro rfl
    exact hne hfind
  · rwa [hdel]

end

/-! ## Runs -/

/-- What the users of an index do. -/
inductive IndexOp
  | insert (key : Key) (ptr : ℕ)
  | del (key : Key)
  | store (m : Memory)

/-- An index, the memory with the objects, and the entries that were inserted and not deleted. -/
structure ObjectIndex (shape : IndexShape) where
  table : CuckooHash shape.toTableShape
  m : Memory
  live : List ℕ

namespace ObjectIndex

variable {cfg : GlobalConfig} {shape : IndexShape} {rand : ℕ → ℕ} {s : ObjectIndex shape}

def start (shape : IndexShape) (m : Memory) : ObjectIndex shape := ⟨.init shape.toTableShape, m, []⟩

/-- One operation. -/
def step (cfg : GlobalConfig) (rand : ℕ → ℕ) (s : ObjectIndex shape) :
    IndexOp → Option (ObjectIndex shape)
  | .insert key ptr =>
    (s.table.insert cfg s.m rand key ptr).map fun r =>
      { s with table := r.1, live := if r.2 then ptr :: s.live else s.live }
  | .del key => some { s with
      table := s.table.del cfg s.m key
      live := s.live.filter fun q => s.table.find cfg s.m key ≠ some q }
  | .store m => some { s with m := m }

/-- The state after the operations. -/
def after (cfg : GlobalConfig) (rand : ℕ → ℕ) (s : ObjectIndex shape) (ops : List IndexOp) :
    Option (ObjectIndex shape) := tryRun (step cfg rand) s ops

/-- What every user keeps to: an object is inserted with its own key, and the keys of live objects
are not overwritten. -/
def WellUsed (cfg : GlobalConfig) (s : ObjectIndex shape) : IndexOp → Prop
  | .insert key ptr => ptr ≠ 0 ∧ key = KeyValue.key cfg s.m ptr
  | .del _ => True
  | .store m => ∀ q, s.table.buckets.Has q → KeyValue.key cfg m q = KeyValue.key cfg s.m q

/-- The operations that keep the entries at home. -/
def Allowed (cfg : GlobalConfig) (s : ObjectIndex shape) : IndexOp → Prop
  | .insert key ptr => InsertOk cfg shape s.m s.table key ptr
  | .del _ => True
  | .store m => ∀ q, s.table.buckets.Has q → KeyValue.key cfg m q = KeyValue.key cfg s.m q

/-- Every live entry is in one of the two buckets that `find` computes from its key. -/
def AtHome (cfg : GlobalConfig) (s : ObjectIndex shape) : Prop :=
  ∀ ptr ∈ s.live, ∃ a, s.table.buckets a = ptr ∧ ownHomes cfg shape s.m ptr a.1

structure Inv (cfg : GlobalConfig) (s : ObjectIndex shape) : Prop where
  housed : s.table.buckets.Housed (ownHomes cfg shape s.m)
  has_of_live : ∀ ptr ∈ s.live, s.table.buckets.Has ptr

theorem Inv.start (m : Memory) : (start shape m).Inv cfg where
  housed _ ha := absurd rfl ha
  has_of_live _ hp := absurd hp List.not_mem_nil

theorem Inv.atHome (h : s.Inv cfg) : s.AtHome cfg := by
  intro ptr hp
  obtain ⟨hne, a, rfl⟩ := h.has_of_live ptr hp
  exact ⟨a, rfl, h.housed a hne⟩

theorem Inv.step (h : s.Inv cfg) {op : IndexOp} (ha : s.Allowed cfg op) :
    ∃ s', step cfg rand s op = some s' ∧ s'.Inv cfg := by
  cases op with
  | insert key ptr =>
    have hok : InsertOk cfg shape s.m s.table key ptr := ha
    obtain ⟨t', ok, ht', hhoused, hlive⟩ := hok.has_live rand h.housed h.has_of_live
    exact ⟨_, by rw [ObjectIndex.step, ht']; rfl, hhoused, hlive⟩
  | del key =>
    refine ⟨_, rfl, housed_del cfg s.m key h.housed, fun q hq => ?_⟩
    rw [List.mem_filter, decide_eq_true_eq] at hq
    exact has_del (h.has_of_live q hq.1) hq.2
  | store m => exact ⟨_, rfl, housed_congr h.housed ha, h.has_of_live⟩

/-- In a run of allowed operations every live entry stays at home, however it was displaced. -/
theorem atHome_after (cfg : GlobalConfig) (rand : ℕ → ℕ) (m : Memory) (ops : List IndexOp)
    (hallowed : ∀ n op s, ops[n]? = some op →
      after cfg rand (start shape m) (ops.take n) = some s → s.Allowed cfg op) :
    ∃ s, after cfg rand (start shape m) ops = some s ∧ s.AtHome cfg := by
  obtain ⟨s, hs, h⟩ := tryRun_invariant (Inv cfg) (Allowed cfg) (Inv.start m)
    (fun s op hs ha => hs.step ha) ops hallowed
  exact ⟨s, hs, h.atHome⟩

/-! ## A displaced split -/

/-- Keys of eight bytes with the same hash. -/
def sampleKeys : List (List UInt8) :=
  [[109, 109, 109, 109, 109, 109, 109, 109], [116, 115, 105, 104, 106, 102, 111, 117],
    [102, 103, 113, 114, 112, 116, 107, 101], [105, 110, 102, 109, 106, 118, 109, 101],
    [113, 108, 116, 109, 112, 100, 109, 117], [103, 102, 109, 105, 104, 119, 118, 116],
    [118, 106, 119, 111, 106, 112, 110, 104], [100, 112, 99, 107, 112, 106, 108, 114],
    [115, 116, 109, 113, 114, 99, 100, 102]]

/-- The objects under the keys, one every 32 bytes. The one at 160 is the first split of an object
of 21 bytes, the others have a value of one byte. -/
def sampleObjects : Memory := fun i =>
  let key := sampleKeys.getD (i / 32 - 1) []
  if i < 32 then 0
  else if i / 32 = 5 then
    ([8, 0, 0, 21] ++ key ++ [0, 0, 0] ++ List.replicate 17 0x76).getD (i % 32) 0
  else ([8, 0, 0, 1] ++ key ++ [0x76]).getD (i % 32) 0

def sampleInsert (ptr : ℕ) : IndexOp := .insert (KeyValue.key .smallest sampleObjects ptr) ptr

/-- The last insertion finds both buckets full, and `rand` picks the split. -/
def sampleInserts : List IndexOp := [32, 64, 96, 128, 160, 192, 224, 256, 288].map sampleInsert

def sampleAfter (ops : List IndexOp) : Option (ObjectIndex .default) :=
  after .smallest (fun _ => 0) (start .default sampleObjects) ops

/-- The split ends up in a third bucket: the tag was computed from the value size and the key. -/
theorem not_atHome_of_displaced_split :
    ¬∀ ops, (∀ n op s, ops[n]? = some op → sampleAfter (ops.take n) = some s →
        s.WellUsed .smallest op) →
      ∃ s, sampleAfter ops = some s ∧ s.AtHome .smallest := by
  intro h
  have hused : ∀ n op s, sampleInserts[n]? = some op →
      sampleAfter (sampleInserts.take n) = some s → s.WellUsed .smallest op := by
    have hcheck : ∀ n < 9, ∀ op, sampleInserts[n]? = some op →
        (sampleAfter (sampleInserts.take n)).map (fun s => match op with
          | .insert key ptr => decide (ptr ≠ 0 ∧ key = KeyValue.key .smallest s.m ptr)
          | _ => false) = some true := by
      intro n hn op hop
      interval_cases n <;> cases hop <;> decide +kernel
    intro n op s hop hs
    have hc := hcheck n (List.getElem?_eq_some_iff.mp hop).1 op hop
    rw [hs] at hc
    cases op with
    | insert key ptr =>
      have hins : ptr ≠ 0 ∧ key = KeyValue.key .smallest s.m ptr :=
        of_decide_eq_true (Option.some.inj hc)
      exact hins
    | del key => cases hc
    | store m => cases hc
  have hlost : (sampleAfter sampleInserts).map (fun s => decide (160 ∈ s.live ∧ ∀ j : Fin 4,
      s.table.buckets (IndexShape.default.bucket₁
        (KeyValue.key .smallest s.m 160).hashValue, j) ≠ 160 ∧
      s.table.buckets (IndexShape.default.bucket₂
        (KeyValue.key .smallest s.m 160).hashValue, j) ≠ 160)) = some true := by
    decide +kernel
  obtain ⟨s, hs, hhome⟩ := h sampleInserts hused
  rw [hs] at hlost
  obtain ⟨hlive, hout⟩ := of_decide_eq_true (Option.some.inj hlost)
  obtain ⟨⟨i, j⟩, ha, hi⟩ := hhome 160 hlive
  rcases hi with rfl | rfl
  · exact (hout j).1 ha
  · exact (hout j).2 ha

/-- A split and a plain object with its hash, of which the split is deleted. -/
def sampleRun : List IndexOp :=
  [sampleInsert 160, sampleInsert 32, .del (KeyValue.key .smallest sampleObjects 160)]

theorem atHome_after_sample : ∃ s, sampleAfter sampleRun = some s ∧ s.AtHome .smallest := by
  refine atHome_after .smallest (fun _ => 0) sampleObjects sampleRun ?_
  have hcheck : ∀ n < 3, ∀ op, sampleRun[n]? = some op →
      (sampleAfter (sampleRun.take n)).map (fun s => match op with
        | .insert key ptr => decide (ptr ≠ 0 ∧ key = KeyValue.key .smallest s.m ptr ∧
            s.table.buckets (IndexShape.default.bucket₁ key.hashValue, 3) = 0)
        | .del _ => true
        | .store _ => false) = some true := by
    intro n hn op hop
    interval_cases n <;> cases hop <;> decide +kernel
  intro n op s hop hs
  have hc := hcheck n (List.getElem?_eq_some_iff.mp hop).1 op hop
  have hs' : sampleAfter (sampleRun.take n) = some s := hs
  rw [hs'] at hc
  cases op with
  | insert key ptr =>
    obtain ⟨hne, hkey, hfree⟩ := of_decide_eq_true (Option.some.inj hc)
    exact ⟨hne, congrArg Key.hashValue hkey, fun hfull => absurd hfree (hfull 3)⟩
  | del key => trivial
  | store m => cases hc

end ObjectIndex

end MemEC.Common
