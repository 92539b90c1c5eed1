import Mathlib.Algebra.BigOperators.Group.List.Basic
import Mathlib.Algebra.Group.Hom.Basic
import Mathlib.Tactic

/-!
# Byte memories

A memory assigns a byte to every address, as seen from a pointer: address `0`
is the byte the pointer refers to, and a copy or a fill that is too long
reaches the addresses behind the object it was meant for, as it does in C.

Bytewise XOR is the addition of a commutative group on memories in which every
element is its own inverse. Copying a window of one memory to another place is
a homomorphism of that group, which is all that an erasure code built from
XORs of shifted windows needs.
-/

namespace MemEC.Lib

/-- A byte at every address. -/
def Memory := ℕ → UInt8

namespace Memory

@[ext] theorem ext {a b : Memory} (h : ∀ i, a i = b i) : a = b := funext h

instance : Zero Memory := ⟨fun _ => 0⟩
instance : Add Memory := ⟨fun a b i => a i ^^^ b i⟩
instance : Neg Memory := ⟨id⟩

@[simp] theorem zero_apply (i : ℕ) : (0 : Memory) i = 0 := rfl
@[simp] theorem add_apply (a b : Memory) (i : ℕ) : (a + b) i = a i ^^^ b i := rfl

instance : AddCommGroup Memory where
  add_assoc a b c := ext fun i => UInt8.xor_assoc (a i) (b i) (c i)
  zero_add a := ext fun i => UInt8.zero_xor
  add_zero a := ext fun i => UInt8.xor_zero
  add_comm a b := ext fun i => UInt8.xor_comm (a i) (b i)
  neg_add_cancel a := ext fun i => UInt8.xor_self
  nsmul := nsmulRec
  zsmul := zsmulRec

/-- XOR-ing a memory twice leaves nothing behind. -/
@[simp] theorem add_self (a : Memory) : a + a = 0 := ext fun _ => UInt8.xor_self

@[simp] theorem add_add_cancel_right (a b : Memory) : a + b + b = a := by
  rw [add_assoc, add_self, add_zero]

@[simp] theorem add_add_cancel_left (a b : Memory) : a + (a + b) = b := by
  rw [← add_assoc, add_self, zero_add]

/-! ## Reading and writing -/

/-- The `n` bytes at `off`. -/
def read (m : Memory) (off n : ℕ) : List UInt8 := (List.range n).map fun j => m (off + j)

/-- `bs` copied to `off`. -/
def write (m : Memory) (off : ℕ) (bs : List UInt8) : Memory := fun i =>
  if off ≤ i then (bs[i - off]?).getD (m i) else m i

/-- `memset( m + off, b, n )`. -/
def fill (m : Memory) (off n : ℕ) (b : UInt8) : Memory := fun i =>
  if off ≤ i ∧ i < off + n then b else m i

/-- The `n` bytes of `src` at `soff`, moved to `doff`, in an otherwise zero memory. -/
def window (soff doff n : ℕ) (src : Memory) : Memory := fun i =>
  if doff ≤ i ∧ i < doff + n then src (i - doff + soff) else 0

/-- `memcpy( dst + doff, src + soff, n )`. -/
def copy (dst : Memory) (doff : ℕ) (src : Memory) (soff n : ℕ) : Memory := fun i =>
  if doff ≤ i ∧ i < doff + n then src (i - doff + soff) else dst i

/-- The XOR of `n` bytes of `a` at `aoff` and of `b` at `boff`, stored in `dst` at `doff`. -/
def xorOf (dst : Memory) (doff : ℕ) (a : Memory) (aoff : ℕ) (b : Memory) (boff n : ℕ) : Memory :=
  fun i => if doff ≤ i ∧ i < doff + n then a (i - doff + aoff) ^^^ b (i - doff + boff) else dst i

/-- The `n` bytes of `src` at `soff`, XOR-ed into `dst` at `doff`. -/
def xorInto (dst : Memory) (doff : ℕ) (src : Memory) (soff n : ℕ) : Memory := fun i =>
  if doff ≤ i ∧ i < doff + n then dst i ^^^ src (i - doff + soff) else dst i

@[simp] theorem length_read (m : Memory) (off n : ℕ) : (m.read off n).length = n := by
  simp [read]

@[simp] theorem getElem_read (m : Memory) (off n j : ℕ) (h : j < (m.read off n).length) :
    (m.read off n)[j] = m (off + j) := by
  simp [read]

theorem take_read (m : Memory) (off : ℕ) {k n : ℕ} (h : k ≤ n) :
    (m.read off n).take k = m.read off k := by
  refine List.ext_getElem (by simp [h]) fun j h1 h2 => ?_
  simp

theorem read_congr {a b : Memory} {off n : ℕ} (h : ∀ i, off ≤ i → i < off + n → a i = b i) :
    a.read off n = b.read off n := by
  refine List.map_congr_left fun j hj => h _ (Nat.le_add_right _ _) ?_
  have := List.mem_range.mp hj
  omega

theorem write_apply_out {m : Memory} {off i : ℕ} {bs : List UInt8}
    (h : i < off ∨ off + bs.length ≤ i) : m.write off bs i = m i := by
  rcases h with h | h
  · simp [write, Nat.not_le.mpr h]
  · have hn : bs[i - off]? = none := List.getElem?_eq_none (by omega)
    simp [write, hn]

theorem write_apply {m : Memory} {off j : ℕ} {bs : List UInt8} (h : j < bs.length) :
    m.write off bs (off + j) = bs[j] := by
  simp [write, h]

theorem write_apply_congr {a b : Memory} {i : ℕ} (h : a i = b i) (off : ℕ) (bs : List UInt8) :
    a.write off bs i = b.write off bs i := by
  simp only [write, h]

@[simp] theorem write_nil (m : Memory) (off : ℕ) : m.write off [] = m := by
  ext i : 1
  simp [write]

theorem write_append (m : Memory) (off : ℕ) (as bs : List UInt8) :
    m.write off (as ++ bs) = (m.write off as).write (off + as.length) bs := by
  ext i : 1
  simp only [write, List.getElem?_append]
  split_ifs with h1 h2 h3 h3
  · omega
  · rfl
  · rw [Nat.sub_add_eq]
    have hn : as[i - off]? = none := List.getElem?_eq_none (by omega)
    simp [hn]
  · omega
  · omega
  · rfl

/-- A second write hides the first. -/
theorem write_write {m : Memory} {off : ℕ} {as bs : List UInt8} (h : as.length ≤ bs.length) :
    (m.write off as).write off bs = m.write off bs := by
  ext i : 1
  by_cases hi : off ≤ i ∧ i < off + bs.length
  · obtain ⟨j, rfl⟩ := Nat.exists_eq_add_of_le hi.1
    rw [write_apply (by omega), write_apply (by omega)]
  · rw [write_apply_out (by omega), write_apply_out (by omega), write_apply_out (by omega)]

theorem copy_eq_write (dst : Memory) (doff : ℕ) (src : Memory) (soff n : ℕ) :
    dst.copy doff src soff n = dst.write doff (src.read soff n) := by
  ext i : 1
  by_cases h : doff ≤ i ∧ i < doff + n
  · obtain ⟨j, rfl⟩ := Nat.exists_eq_add_of_le h.1
    rw [write_apply (by simpa using h.2)]
    simp [copy, h.2, Nat.add_comm]
  · have hc : dst.copy doff src soff n i = dst i := by simp only [copy, if_neg h]
    rw [hc, write_apply_out (by rw [length_read]; omega)]

theorem fill_eq_write (m : Memory) (off n : ℕ) (b : UInt8) :
    m.fill off n b = m.write off (List.replicate n b) := by
  ext i : 1
  by_cases h : off ≤ i ∧ i < off + n
  · obtain ⟨j, rfl⟩ := Nat.exists_eq_add_of_le h.1
    rw [write_apply (by simpa using h.2)]
    simp [fill, h.2]
  · have hc : m.fill off n b i = m i := by simp only [fill, if_neg h]
    rw [hc, write_apply_out (by rw [List.length_replicate]; omega)]

theorem xorInto_eq_add (dst : Memory) (doff : ℕ) (src : Memory) (soff n : ℕ) :
    dst.xorInto doff src soff n = dst + window soff doff n src := by
  ext i : 1
  simp only [xorInto, add_apply, window]
  split_ifs <;> simp

/-- An XOR depends on the window of the source alone. -/
theorem xorInto_congr {src src' : Memory} {soff n : ℕ}
    (h : ∀ j < n, src (soff + j) = src' (soff + j)) (dst : Memory) (doff : ℕ) :
    dst.xorInto doff src soff n = dst.xorInto doff src' soff n := by
  ext i : 1
  by_cases hi : doff ≤ i ∧ i < doff + n
  · have hj := h (i - doff) (by omega)
    simp only [xorInto, if_pos hi, Nat.add_comm _ soff, hj]
  · simp only [xorInto, if_neg hi]

theorem xorInto_apply_out {dst src : Memory} {doff soff n i : ℕ}
    (h : i < doff ∨ doff + n ≤ i) : dst.xorInto doff src soff n i = dst i := by
  have hn : ¬ (doff ≤ i ∧ i < doff + n) := by omega
  simp only [xorInto, if_neg hn]

theorem xorInto_apply_in {dst src : Memory} {doff soff n j : ℕ} (h : j < n) :
    dst.xorInto doff src soff n (doff + j) = dst (doff + j) ^^^ src (soff + j) := by
  simp [xorInto, h, Nat.add_comm]

/-! ## Windows -/

/-- Moving a window is additive. -/
theorem window_add (soff doff n : ℕ) (a b : Memory) :
    window soff doff n (a + b) = window soff doff n a + window soff doff n b := by
  ext i : 1
  simp only [window, add_apply]
  split_ifs <;> simp

@[simp] theorem window_zero (soff doff n : ℕ) : window soff doff n 0 = 0 := by
  ext i : 1
  simp [window]

/-- `window` as a homomorphism. -/
def windowHom (soff doff n : ℕ) : Memory →+ Memory where
  toFun := window soff doff n
  map_zero' := window_zero soff doff n
  map_add' := window_add soff doff n

@[simp] theorem windowHom_apply (soff doff n : ℕ) (m : Memory) :
    windowHom soff doff n m = window soff doff n m := rfl

/-- A window over addresses at which the source is zero moves nothing. -/
theorem window_eq_zero {soff doff n : ℕ} {m : Memory}
    (h : ∀ j < n, m (soff + j) = 0) : window soff doff n m = 0 := by
  ext i : 1
  by_cases hi : doff ≤ i ∧ i < doff + n
  · have := h (i - doff) (by omega)
    simp [window, hi, Nat.add_comm, this]
  · simp only [window, if_neg hi, zero_apply]

/-- A window may be narrowed to a part of it outside which the source is zero. -/
theorem window_narrow {soff doff n off len : ℕ} {m : Memory} (hlen : off + len ≤ n)
    (h : ∀ j < n, (j < off ∨ off + len ≤ j) → m (soff + j) = 0) :
    window (soff + off) (doff + off) len m = window soff doff n m := by
  ext i : 1
  simp only [window]
  by_cases hi : doff ≤ i ∧ i < doff + n
  · obtain ⟨j, rfl⟩ := Nat.exists_eq_add_of_le hi.1
    rw [if_pos hi]
    by_cases hj : off ≤ j ∧ j < off + len
    · rw [if_pos (by omega), show doff + j - (doff + off) + (soff + off) =
        doff + j - doff + soff by omega]
    · rw [if_neg (by omega), show doff + j - doff + soff = soff + j by omega]
      exact (h j (by omega) (by omega)).symm
  · rw [if_neg hi, if_neg (by omega)]

/-! ## What a memory holds -/

/-- `bs` stands at `off`. -/
def Holds (m : Memory) (off : ℕ) (bs : List UInt8) : Prop := m.read off bs.length = bs

theorem holds_iff {m : Memory} {off : ℕ} {bs : List UInt8} :
    m.Holds off bs ↔ ∀ j, (h : j < bs.length) → m (off + j) = bs[j] := by
  constructor
  · intro h j hj
    have hj' : j < (m.read off bs.length).length := by simpa using hj
    have hget := getElem_read m off bs.length j hj'
    rw [← hget]
    congr 1
  · intro h
    refine List.ext_getElem (by simp) fun j h1 h2 => ?_
    simpa using h j h2

@[simp] theorem holds_nil (m : Memory) (off : ℕ) : m.Holds off [] := by simp [Holds, read]

theorem holds_append {m : Memory} {off : ℕ} {as bs : List UInt8} :
    m.Holds off (as ++ bs) ↔ m.Holds off as ∧ m.Holds (off + as.length) bs := by
  simp only [holds_iff, List.length_append]
  constructor
  · intro h
    refine ⟨fun j hj => ?_, fun j hj => ?_⟩
    · rw [h j (by omega), List.getElem_append_left hj]
    · rw [Nat.add_assoc, h (as.length + j) (by omega), List.getElem_append_right (by omega)]
      congr 1
      omega
  · rintro ⟨ha, hb⟩ j hj
    by_cases hlt : j < as.length
    · rw [List.getElem_append_left hlt, ha j hlt]
    · have := hb (j - as.length) (by omega)
      rw [List.getElem_append_right (by omega), ← this]
      congr 1
      omega

theorem holds_cons {m : Memory} {off : ℕ} {b : UInt8} {bs : List UInt8} :
    m.Holds off (b :: bs) ↔ m off = b ∧ m.Holds (off + 1) bs := by
  rw [← List.singleton_append, holds_append]
  simp [Holds, read]

/-- A row of records of one size. -/
theorem holds_flatMap {α : Type} {m : Memory} {f : α → List UInt8} {c : ℕ}
    (hf : ∀ a, (f a).length = c) {off : ℕ} {l : List α} :
    m.Holds off (l.flatMap f) ↔ ∀ i, (h : i < l.length) → m.Holds (off + c * i) (f l[i]) := by
  induction l generalizing off with
  | nil => simp
  | cons a l ih =>
    rw [List.flatMap_cons, holds_append, hf, ih]
    constructor
    · rintro ⟨ha, hl⟩ i hi
      cases i with
      | zero => exact ha
      | succ i =>
        have hmul : off + c * (i + 1) = off + c + c * i := by ring
        rw [hmul]
        exact hl i (Nat.lt_of_succ_lt_succ hi)
    · intro h
      refine ⟨h 0 (Nat.succ_pos _), fun i hi => ?_⟩
      have hmul : off + c + c * i = off + c * (i + 1) := by ring
      rw [hmul]
      exact h (i + 1) (Nat.succ_lt_succ hi)

theorem holds_read (m : Memory) (off n : ℕ) : m.Holds off (m.read off n) := by
  simp [Holds]

theorem Holds.congr {a b : Memory} {off : ℕ} {bs : List UInt8} (h : a.Holds off bs)
    (hab : ∀ i, off ≤ i → i < off + bs.length → b i = a i) : b.Holds off bs := by
  unfold Holds at h ⊢
  rw [read_congr hab, h]

theorem holds_write (m : Memory) (off : ℕ) (bs : List UInt8) : (m.write off bs).Holds off bs :=
  holds_iff.mpr fun _ hj => write_apply hj

/-- A write elsewhere keeps what is held. -/
theorem Holds.write {m : Memory} {off off' : ℕ} {bs bs' : List UInt8} (h : m.Holds off bs)
    (hd : off + bs.length ≤ off' ∨ off' + bs'.length ≤ off) :
    (m.write off' bs').Holds off bs := by
  exact h.congr fun i h1 h2 => write_apply_out (by omega)

/-- What an otherwise zero memory with `bs` at `off` looks like. -/
def place (off : ℕ) (bs : List UInt8) : Memory := (0 : Memory).write off bs

theorem place_apply_out {off i : ℕ} {bs : List UInt8} (h : i < off ∨ off + bs.length ≤ i) :
    place off bs i = 0 := write_apply_out h

theorem place_apply {off j : ℕ} {bs : List UInt8} (h : j < bs.length) :
    place off bs (off + j) = bs[j] := write_apply h

/-- Moving a window moves what stands in it. -/
theorem window_place (off doff : ℕ) {n j : ℕ} {bs : List UInt8} (h : j + bs.length ≤ n) :
    window off doff n (place (off + j) bs) = place (doff + j) bs := by
  ext i : 1
  by_cases hi : doff + j ≤ i ∧ i < doff + j + bs.length
  · obtain ⟨k, rfl⟩ := Nat.exists_eq_add_of_le hi.1
    have hk : k < bs.length := by omega
    have hsrc : doff + j + k - doff + off = off + j + k := by omega
    rw [place_apply hk, window, if_pos (by omega), hsrc, place_apply hk]
  · rw [place_apply_out (by omega), window]
    split_ifs with hw
    · exact place_apply_out (by omega)
    · rfl

/-- Writing over zeros is XOR-ing. -/
theorem write_eq_add_place {m : Memory} {off : ℕ} {bs : List UInt8}
    (h : ∀ i, off ≤ i → i < off + bs.length → m i = 0) :
    m.write off bs = m + place off bs := by
  ext i : 1
  by_cases hi : off ≤ i ∧ i < off + bs.length
  · obtain ⟨j, rfl⟩ := Nat.exists_eq_add_of_le hi.1
    have hj : j < bs.length := by omega
    rw [add_apply, write_apply hj, place_apply hj, h _ hi.1 hi.2, UInt8.zero_xor]
  · have ho : i < off ∨ off + bs.length ≤ i := by omega
    rw [add_apply, place_apply_out ho, UInt8.xor_zero, write_apply_out ho]

theorem place_append (off : ℕ) (as bs : List UInt8) :
    place off (as ++ bs) = place off as + place (off + as.length) bs := by
  rw [place, write_append]
  exact write_eq_add_place fun i hi _ => place_apply_out (Or.inr hi)

/-- The memory is zero outside the `n` addresses from `off`. -/
def SupportedOn (m : Memory) (off n : ℕ) : Prop := ∀ i, i < off ∨ off + n ≤ i → m i = 0

theorem supportedOn_place (off : ℕ) (bs : List UInt8) :
    (place off bs).SupportedOn off bs.length := fun _ h => place_apply_out h

theorem SupportedOn.mono {m : Memory} {off n off' n' : ℕ} (h : m.SupportedOn off n)
    (h1 : off' ≤ off) (h2 : off + n ≤ off' + n') : m.SupportedOn off' n' :=
  fun i hi => h i (by omega)

theorem SupportedOn.add {a b : Memory} {off n : ℕ} (ha : a.SupportedOn off n)
    (hb : b.SupportedOn off n) : (a + b).SupportedOn off n := by
  intro i hi
  rw [add_apply, ha i hi, hb i hi, UInt8.zero_xor]

/-- A memory can be put back from the bytes where it is not zero. -/
theorem SupportedOn.place_read_window {m : Memory} {off n : ℕ} (h : m.SupportedOn off n) :
    place off ((window off 0 n m).read 0 n) = m := by
  have hlen : ((window off 0 n m).read 0 n).length = n := length_read _ _ _
  ext i : 1
  by_cases hi : off ≤ i ∧ i < off + n
  · obtain ⟨j, rfl⟩ := Nat.exists_eq_add_of_le hi.1
    rw [place_apply (by omega), getElem_read, Nat.zero_add, window, if_pos (by omega),
      Nat.sub_zero, Nat.add_comm]
  · rw [place_apply_out (by omega), h i (by omega)]

theorem supportedOn_zero (off n : ℕ) : (0 : Memory).SupportedOn off n := fun _ _ => rfl

theorem SupportedOn.write {m : Memory} {off n off' : ℕ} {bs : List UInt8}
    (h : m.SupportedOn off n) (h1 : off ≤ off') (h2 : off' + bs.length ≤ off + n) :
    (m.write off' bs).SupportedOn off n := by
  intro i hi
  rw [write_apply_out (by omega), h i hi]

end Memory

/-! ## Big-endian numbers -/

/-- The `w` low bytes of `n`, most significant byte first. -/
def beBytes : ℕ → ℕ → List UInt8
  | 0, _ => []
  | w + 1, n => beBytes w (n / 256) ++ [UInt8.ofNat n]

/-- The number whose bytes are `bs`, most significant byte first. -/
def ofBe (bs : List UInt8) : ℕ := bs.foldl (fun n b => n * 256 + b.toNat) 0

@[simp] theorem length_beBytes (w n : ℕ) : (beBytes w n).length = w := by
  induction w generalizing n with
  | zero => rfl
  | succ w ih => simp [beBytes, ih]

theorem ofBe_append_singleton (bs : List UInt8) (b : UInt8) :
    ofBe (bs ++ [b]) = ofBe bs * 256 + b.toNat := by
  simp [ofBe]

theorem ofBe_beBytes_mod (w n : ℕ) : ofBe (beBytes w n) = n % 256 ^ w := by
  induction w generalizing n with
  | zero => simp [beBytes, ofBe, Nat.mod_one]
  | succ w ih =>
    rw [beBytes, ofBe_append_singleton, ih, pow_succ', Nat.mod_mul]
    simp only [UInt8.toNat_ofNat', Nat.reducePow]
    omega

theorem ofBe_beBytes {w n : ℕ} (h : n < 256 ^ w) : ofBe (beBytes w n) = n := by
  rw [ofBe_beBytes_mod, Nat.mod_eq_of_lt h]

theorem ofBe_lt (bs : List UInt8) : ofBe bs < 256 ^ bs.length := by
  induction bs using List.reverseRecOn with
  | nil => simp [ofBe]
  | append_singleton bs b ih =>
    have := b.toNat_lt
    rw [ofBe_append_singleton, List.length_append, List.length_singleton, pow_succ]
    omega

/-- The number in the `w` bytes at `off`, most significant byte first. -/
def Memory.readBe (m : Memory) (off w : ℕ) : ℕ := ofBe (m.read off w)

theorem Memory.Holds.readBe {m : Memory} {off w n : ℕ} (h : m.Holds off (beBytes w n))
    (hn : n < 256 ^ w) : m.readBe off w = n := by
  unfold Memory.Holds at h
  rw [length_beBytes] at h
  rw [Memory.readBe, h, ofBe_beBytes hn]

end MemEC.Lib
