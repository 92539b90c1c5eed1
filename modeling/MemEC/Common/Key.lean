import MemEC.Lib.Memory
import Mathlib.Data.List.AList
import Mathlib.Data.List.TakeWhile

/-!
# Keys

A key of the store is a byte string with an explicit size. The key of a split
of a large object carries the three bytes (`SPLIT_OFFSET_SIZE`) of the split
offset behind its `size` bytes and is marked `isLarge`.

`Key::operator==` compares with `strncmp`, which stops at the first NUL byte,
while `std::hash<Key>` reads every byte. A `std::unordered_map<Key, V>` caches
the hash of its entries and compares it before it calls `operator==`, so two
keys are one key of such a map when both agree. `Key.ident` is what is left of
a key then.
-/

namespace MemEC.Common

open MemEC.Lib

/-- `n` as a `uint32_t`. -/
def u32 (n : ℕ) : ℕ := n % 2 ^ 32

/-- `a - b` in `uint32_t` arithmetic. -/
def sub32 (a b : ℕ) : ℕ := u32 (a + (2 ^ 32 - b % 2 ^ 32))

theorem u32_eq {n : ℕ} (h : n < 2 ^ 32) : u32 n = n := Nat.mod_eq_of_lt h

theorem sub32_eq {a b : ℕ} (ha : a < 2 ^ 32) (hb : b ≤ a) : sub32 a b = a - b := by
  simp only [sub32, u32]
  omega

/-! ## Hashing -/

namespace HashFunc

/-- A `char` that is added to an `unsigned int`: it is sign-extended first. -/
def signExtend (c : UInt8) : ℕ :=
  if c.toNat < 128 then c.toNat else c.toNat + (2 ^ 32 - 256)

/-- `HashFunc::hash`. -/
def hash (data : List UInt8) : ℕ :=
  data.foldl (fun h c => u32 (u32 (h * 388650179) + signExtend c)) 388650013 ^^^ 1176845762

end HashFunc

/-! ## Comparing -/

/-- `strncmp( a, b, n )`. What lies behind the end of a list reads as NUL. -/
def strncmp : ℕ → List UInt8 → List UInt8 → ℤ
  | 0, _, _ => 0
  | n + 1, a, b =>
    if a.headD 0 ≠ b.headD 0 then (a.headD 0).toNat - (b.headD 0).toNat
    else if a.headD 0 = 0 then 0
    else strncmp n a.tail b.tail

/-- The bytes that `strncmp( _, _, n )` looks at before it stops at a NUL. -/
def cString (n : ℕ) (a : List UInt8) : List UInt8 := (a.take n).takeWhile (· ≠ 0)

theorem cString_succ (n : ℕ) (a : List UInt8) :
    cString (n + 1) a = if a.headD 0 = 0 then [] else a.headD 0 :: cString n a.tail := by
  cases a with
  | nil => simp [cString]
  | cons x xs =>
    by_cases hx : x = 0 <;> simp [cString, hx]

theorem strncmp_eq_zero_iff (n : ℕ) (a b : List UInt8) :
    strncmp n a b = 0 ↔ cString n a = cString n b := by
  induction n generalizing a b with
  | zero => simp [strncmp, cString]
  | succ n ih =>
    rw [strncmp, cString_succ, cString_succ]
    by_cases hne : a.headD 0 = b.headD 0
    · rw [if_neg (not_not.mpr hne), hne]
      by_cases h0 : b.headD 0 = 0
      · simp only [if_pos h0]
      · simp only [if_neg h0, ih, List.cons.injEq, true_and]
    · have hnat : (a.headD 0).toNat ≠ (b.headD 0).toNat := fun h => hne (UInt8.toNat_inj.mp h)
      rw [if_pos hne]
      constructor
      · intro h
        omega
      · intro h
        split_ifs at h with h1 h2
        · exact absurd (h1.trans h2.symm) hne
        · exact absurd (List.cons.inj h).1 hne

/-! ## Keys -/

/-- The number of bytes behind the `data` pointer of a key. -/
def Key.extent (size : ℕ) (isLarge : Bool) : ℕ := size + if isLarge then 3 else 0

/-- `Key`: `data` is what the key's pointer refers to. -/
structure Key where
  size : ℕ
  isLarge : Bool
  data : List UInt8
  length_data : data.length = Key.extent size isLarge
deriving DecidableEq

namespace Key

@[ext] theorem ext {a b : Key} (hl : a.isLarge = b.isLarge) (hd : a.data = b.data) : a = b := by
  obtain ⟨sa, la, da, ha⟩ := a
  obtain ⟨sb, lb, db, hb⟩ := b
  obtain rfl : la = lb := hl
  obtain rfl : da = db := hd
  obtain rfl : sa = sb := by
    rw [ha] at hb
    simpa [Key.extent] using hb
  rfl

/-- The key of a plain object: `Key::set( size, data )`. -/
def plain (data : List UInt8) : Key := ⟨data.length, false, data, by simp [extent]⟩

/-- The key of a split: the key bytes and, behind them, the split offset. -/
def split (key : List UInt8) (splitOffset : ℕ) : Key :=
  ⟨key.length, true, key ++ beBytes 3 splitOffset, by simp [extent]⟩

/-- `key.set( size, data, 0, isLarge )` for a pointer into a memory. -/
def ofMemory (m : Memory) (off size : ℕ) (isLarge : Bool) : Key :=
  ⟨size, isLarge, m.read off (extent size isLarge), by simp⟩

theorem ofMemory_eq {m : Memory} {off : ℕ} {key : Key} (h : m.Holds off key.data) :
    ofMemory m off key.size key.isLarge = key := by
  refine Key.ext rfl ?_
  unfold Memory.Holds at h
  rwa [key.length_data] at h

/-- `Key::operator==` and `Key::equal`. -/
def equal (a b : Key) : Bool :=
  a.size = b.size && a.isLarge = b.isLarge &&
    strncmp (extent a.size a.isLarge) a.data b.data = 0

/-- `std::hash<Key>`. -/
def hash (k : Key) : ℕ := HashFunc.hash k.data

/-- What an `unordered_map` tells keys apart by. -/
structure Ident where
  hash : ℕ
  size : ℕ
  isLarge : Bool
  chars : List UInt8
deriving DecidableEq

def ident (k : Key) : Ident :=
  ⟨k.hash, k.size, k.isLarge, cString (extent k.size k.isLarge) k.data⟩

theorem equal_iff (a b : Key) : a.equal b = true ↔ a.size = b.size ∧ a.isLarge = b.isLarge ∧
    cString (extent a.size a.isLarge) a.data = cString (extent b.size b.isLarge) b.data := by
  simp only [equal, Bool.and_eq_true, decide_eq_true_eq, strncmp_eq_zero_iff, and_assoc]
  refine and_congr_right fun hs => and_congr_right fun hl => ?_
  rw [hs, hl]

/-- Two keys are one key of an `unordered_map` when their hashes are equal and `operator==`
holds. -/
theorem ident_eq_iff (a b : Key) :
    a.ident = b.ident ↔ a.hash = b.hash ∧ a.equal b = true := by
  rw [equal_iff]
  simp [ident]

end Key

/-! ## Maps over keys -/

/-- `std::unordered_map<Key, V>`. -/
abbrev KeyMap (V : Type) := AList fun _ : Key.Ident => V

namespace KeyMap

variable {V : Type}

/-- `find`: the value under `k`, if there is one. -/
def find (m : KeyMap V) (k : Key) : Option V := m.lookup k.ident

/-- `insert`, which leaves an entry that exists as it is, and whether it inserted. -/
def insertNew (m : KeyMap V) (k : Key) (v : V) : KeyMap V × Bool :=
  if k.ident ∈ m then (m, false) else (m.insert k.ident v, true)

/-- `erase`. -/
def eraseKey (m : KeyMap V) (k : Key) : KeyMap V := m.erase k.ident

/-- An entry that exists is changed in place. -/
def assign (m : KeyMap V) (k : Key) (v : V) : KeyMap V := m.insert k.ident v

theorem find_congr (m : KeyMap V) {k k' : Key} (h : k.ident = k'.ident) : m.find k = m.find k' := by
  rw [find, find, h]

theorem find_eraseKey (m : KeyMap V) (k k' : Key) :
    (m.eraseKey k).find k' = if k'.ident = k.ident then none else m.find k' := by
  unfold find eraseKey
  split_ifs with h
  · rw [h]
    exact AList.lookup_erase k.ident m
  · exact AList.lookup_erase_ne h

theorem find_assign (m : KeyMap V) (k k' : Key) (v : V) :
    (m.assign k v).find k' = if k'.ident = k.ident then some v else m.find k' := by
  unfold find assign
  split_ifs with h
  · rw [h]
    exact AList.lookup_insert m
  · exact AList.lookup_insert_ne h

theorem mem_iff_find_ne_none {m : KeyMap V} {k : Key} : k.ident ∈ m ↔ m.find k ≠ none := by
  rw [← AList.lookup_isSome, find, Option.isSome_iff_ne_none]

theorem insertNew_of_none {m : KeyMap V} {k : Key} (h : m.find k = none) (v : V) :
    m.insertNew k v = (m.assign k v, true) := by
  have hk : k.ident ∉ m := fun hm => mem_iff_find_ne_none.mp hm h
  rw [insertNew, if_neg hk]
  rfl

theorem insertNew_of_some {m : KeyMap V} {k : Key} {v' : V} (h : m.find k = some v') (v : V) :
    m.insertNew k v = (m, false) := by
  have hk : k.ident ∈ m := mem_iff_find_ne_none.mpr (by rw [h]; exact Option.some_ne_none v')
  rw [insertNew, if_pos hk]

theorem find_insertNew (m : KeyMap V) (k k' : Key) (v : V) :
    (m.insertNew k v).1.find k' =
      if k'.ident = k.ident ∧ m.find k = none then some v else m.find k' := by
  cases h : m.find k with
  | none => simp only [insertNew_of_none h, find_assign, and_true]
  | some v' => simp [insertNew_of_some h]

/-- After a list of assignments a key has the value of one of them, or none of them is for it. -/
theorem find_foldl_assign {ι : Type} (key : ι → Key) (value : ι → V) (m : KeyMap V) (l : List ι)
    (k : Key) :
    (∃ i ∈ l, (key i).ident = k.ident ∧
        (l.foldl (fun m i => m.assign (key i) (value i)) m).find k = some (value i)) ∨
      ((∀ i ∈ l, (key i).ident ≠ k.ident) ∧
        (l.foldl (fun m i => m.assign (key i) (value i)) m).find k = m.find k) := by
  induction l using List.reverseRecOn with
  | nil => exact Or.inr ⟨fun _ hi => absurd hi List.not_mem_nil, rfl⟩
  | append_singleton l i ih =>
    rw [List.foldl_append, List.foldl_cons, List.foldl_nil, find_assign]
    by_cases hk : k.ident = (key i).ident
    · rw [if_pos hk]
      exact Or.inl ⟨i, List.mem_append_right l List.mem_cons_self, hk.symm, rfl⟩
    · rw [if_neg hk]
      refine ih.imp (fun ⟨j, hj, hrest⟩ => ⟨j, List.mem_append_left _ hj, hrest⟩) ?_
      rintro ⟨hne, heq⟩
      refine ⟨fun j hj => ?_, heq⟩
      rcases List.mem_append.mp hj with hj | hj
      · exact hne j hj
      · rw [List.mem_singleton.mp hj]
        exact Ne.symm hk

end KeyMap

end MemEC.Common
