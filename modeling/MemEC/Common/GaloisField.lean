import Mathlib.Algebra.Field.Basic
import Mathlib.Data.List.GetD
import Mathlib.Data.List.Iterate
import Mathlib.Tactic

/-!
# The field of 256 elements

`gf_mul` and `gf_inv` of ISA-L look products and inverses up in a table of the
powers of two and a table of logarithms. The table of powers is generated by
the multiplication by two, a linear map on the bits; all laws of the field
follow from that one fact.
-/

namespace MemEC.Common

/-- `gff_base`: the powers of two. -/
def gffBase : List UInt8 := [
  0x01, 0x02, 0x04, 0x08, 0x10, 0x20, 0x40, 0x80, 0x1d, 0x3a, 0x74, 0xe8, 0xcd, 0x87, 0x13,
  0x26, 0x4c, 0x98, 0x2d, 0x5a, 0xb4, 0x75, 0xea, 0xc9, 0x8f, 0x03, 0x06, 0x0c, 0x18, 0x30,
  0x60, 0xc0, 0x9d, 0x27, 0x4e, 0x9c, 0x25, 0x4a, 0x94, 0x35, 0x6a, 0xd4, 0xb5, 0x77, 0xee,
  0xc1, 0x9f, 0x23, 0x46, 0x8c, 0x05, 0x0a, 0x14, 0x28, 0x50, 0xa0, 0x5d, 0xba, 0x69, 0xd2,
  0xb9, 0x6f, 0xde, 0xa1, 0x5f, 0xbe, 0x61, 0xc2, 0x99, 0x2f, 0x5e, 0xbc, 0x65, 0xca, 0x89,
  0x0f, 0x1e, 0x3c, 0x78, 0xf0, 0xfd, 0xe7, 0xd3, 0xbb, 0x6b, 0xd6, 0xb1, 0x7f, 0xfe, 0xe1,
  0xdf, 0xa3, 0x5b, 0xb6, 0x71, 0xe2, 0xd9, 0xaf, 0x43, 0x86, 0x11, 0x22, 0x44, 0x88, 0x0d,
  0x1a, 0x34, 0x68, 0xd0, 0xbd, 0x67, 0xce, 0x81, 0x1f, 0x3e, 0x7c, 0xf8, 0xed, 0xc7, 0x93,
  0x3b, 0x76, 0xec, 0xc5, 0x97, 0x33, 0x66, 0xcc, 0x85, 0x17, 0x2e, 0x5c, 0xb8, 0x6d, 0xda,
  0xa9, 0x4f, 0x9e, 0x21, 0x42, 0x84, 0x15, 0x2a, 0x54, 0xa8, 0x4d, 0x9a, 0x29, 0x52, 0xa4,
  0x55, 0xaa, 0x49, 0x92, 0x39, 0x72, 0xe4, 0xd5, 0xb7, 0x73, 0xe6, 0xd1, 0xbf, 0x63, 0xc6,
  0x91, 0x3f, 0x7e, 0xfc, 0xe5, 0xd7, 0xb3, 0x7b, 0xf6, 0xf1, 0xff, 0xe3, 0xdb, 0xab, 0x4b,
  0x96, 0x31, 0x62, 0xc4, 0x95, 0x37, 0x6e, 0xdc, 0xa5, 0x57, 0xae, 0x41, 0x82, 0x19, 0x32,
  0x64, 0xc8, 0x8d, 0x07, 0x0e, 0x1c, 0x38, 0x70, 0xe0, 0xdd, 0xa7, 0x53, 0xa6, 0x51, 0xa2,
  0x59, 0xb2, 0x79, 0xf2, 0xf9, 0xef, 0xc3, 0x9b, 0x2b, 0x56, 0xac, 0x45, 0x8a, 0x09, 0x12,
  0x24, 0x48, 0x90, 0x3d, 0x7a, 0xf4, 0xf5, 0xf7, 0xf3, 0xfb, 0xeb, 0xcb, 0x8b, 0x0b, 0x16,
  0x2c, 0x58, 0xb0, 0x7d, 0xfa, 0xe9, 0xcf, 0x83, 0x1b, 0x36, 0x6c, 0xd8, 0xad, 0x47, 0x8e,
  0x01]

/-- `gflog_base`: the logarithms. -/
def gflogBase : List UInt8 := [
  0x00, 0xff, 0x01, 0x19, 0x02, 0x32, 0x1a, 0xc6, 0x03, 0xdf, 0x33, 0xee, 0x1b, 0x68, 0xc7,
  0x4b, 0x04, 0x64, 0xe0, 0x0e, 0x34, 0x8d, 0xef, 0x81, 0x1c, 0xc1, 0x69, 0xf8, 0xc8, 0x08,
  0x4c, 0x71, 0x05, 0x8a, 0x65, 0x2f, 0xe1, 0x24, 0x0f, 0x21, 0x35, 0x93, 0x8e, 0xda, 0xf0,
  0x12, 0x82, 0x45, 0x1d, 0xb5, 0xc2, 0x7d, 0x6a, 0x27, 0xf9, 0xb9, 0xc9, 0x9a, 0x09, 0x78,
  0x4d, 0xe4, 0x72, 0xa6, 0x06, 0xbf, 0x8b, 0x62, 0x66, 0xdd, 0x30, 0xfd, 0xe2, 0x98, 0x25,
  0xb3, 0x10, 0x91, 0x22, 0x88, 0x36, 0xd0, 0x94, 0xce, 0x8f, 0x96, 0xdb, 0xbd, 0xf1, 0xd2,
  0x13, 0x5c, 0x83, 0x38, 0x46, 0x40, 0x1e, 0x42, 0xb6, 0xa3, 0xc3, 0x48, 0x7e, 0x6e, 0x6b,
  0x3a, 0x28, 0x54, 0xfa, 0x85, 0xba, 0x3d, 0xca, 0x5e, 0x9b, 0x9f, 0x0a, 0x15, 0x79, 0x2b,
  0x4e, 0xd4, 0xe5, 0xac, 0x73, 0xf3, 0xa7, 0x57, 0x07, 0x70, 0xc0, 0xf7, 0x8c, 0x80, 0x63,
  0x0d, 0x67, 0x4a, 0xde, 0xed, 0x31, 0xc5, 0xfe, 0x18, 0xe3, 0xa5, 0x99, 0x77, 0x26, 0xb8,
  0xb4, 0x7c, 0x11, 0x44, 0x92, 0xd9, 0x23, 0x20, 0x89, 0x2e, 0x37, 0x3f, 0xd1, 0x5b, 0x95,
  0xbc, 0xcf, 0xcd, 0x90, 0x87, 0x97, 0xb2, 0xdc, 0xfc, 0xbe, 0x61, 0xf2, 0x56, 0xd3, 0xab,
  0x14, 0x2a, 0x5d, 0x9e, 0x84, 0x3c, 0x39, 0x53, 0x47, 0x6d, 0x41, 0xa2, 0x1f, 0x2d, 0x43,
  0xd8, 0xb7, 0x7b, 0xa4, 0x76, 0xc4, 0x17, 0x49, 0xec, 0x7f, 0x0c, 0x6f, 0xf6, 0x6c, 0xa1,
  0x3b, 0x52, 0x29, 0x9d, 0x55, 0xaa, 0xfb, 0x60, 0x86, 0xb1, 0xbb, 0xcc, 0x3e, 0x5a, 0xcb,
  0x59, 0x5f, 0xb0, 0x9c, 0xa9, 0xa0, 0x51, 0x0b, 0xf5, 0x16, 0xeb, 0x7a, 0x75, 0x2c, 0xd7,
  0x4f, 0xae, 0xd5, 0xe9, 0xe6, 0xe7, 0xad, 0xe8, 0x74, 0xd6, 0xf4, 0xea, 0xa8, 0x50, 0x58,
  0xaf]

def gfLog (a : UInt8) : ℕ := (gflogBase.getD a.toNat 0).toNat

/-- `gf_mul`. -/
def gfMul (a b : UInt8) : UInt8 :=
  if a = 0 ∨ b = 0 then 0
  else
    let i := gfLog a + gfLog b
    gffBase.getD (if 254 < i then i - 255 else i) 0

/-- `gf_inv`. -/
def gfInv (a : UInt8) : UInt8 := if a = 0 then 0 else gffBase.getD (255 - gfLog a) 0

/-! ## Multiplication by two -/

/-- The multiplication by two, as `gf_vect_mul_init` does it. -/
def times2 (a : UInt8) : UInt8 := (a <<< 1) ^^^ (if a &&& 0x80 ≠ 0 then 0x1d else 0)

theorem forall_byte {p : UInt8 → Prop} (h : ∀ n < 256, p (UInt8.ofNat n)) (a : UInt8) : p a := by
  have ha := h a.toNat a.toNat_lt
  rwa [UInt8.ofNat_toNat] at ha

theorem top_bit (a : UInt8) : a &&& 0x80 = 0 ∨ a &&& 0x80 = 0x80 := by
  apply forall_byte (p := fun a => a &&& 0x80 = 0 ∨ a &&& 0x80 = 0x80)
  decide +kernel

theorem times2_xor (a b : UInt8) : times2 (a ^^^ b) = times2 a ^^^ times2 b := by
  have hshift : (a ^^^ b) <<< 1 = (a <<< 1) ^^^ (b <<< 1) := UInt8.shiftLeft_xor
  have htop : (a ^^^ b) &&& 0x80 = (a &&& 0x80) ^^^ (b &&& 0x80) := by
    apply UInt8.toNat_inj.mp
    simp only [UInt8.toNat_and, UInt8.toNat_xor, Nat.and_xor_distrib_right]
  unfold times2
  rw [hshift, htop]
  -- The two reductions cancel where both top bits are set.
  have hreduce : ∀ x y : UInt8, (x = 0 ∨ x = 0x80) → (y = 0 ∨ y = 0x80) →
      (if x ^^^ y ≠ 0 then (0x1d : UInt8) else 0) =
        (if x ≠ 0 then 0x1d else 0) ^^^ (if y ≠ 0 then 0x1d else 0) := by
    rintro x y (rfl | rfl) (rfl | rfl) <;> decide
  rw [hreduce _ _ (top_bit a) (top_bit b)]
  ac_rfl

theorem iterate_times2_xor (n : ℕ) (a b : UInt8) :
    times2^[n] (a ^^^ b) = times2^[n] a ^^^ times2^[n] b := by
  induction n generalizing a b with
  | zero => rfl
  | succ n ih =>
    rw [Function.iterate_succ_apply, Function.iterate_succ_apply, Function.iterate_succ_apply,
      times2_xor, ih]

theorem iterate_times2_zero (n : ℕ) : times2^[n] 0 = 0 := by
  have h := iterate_times2_xor n 0 0
  rwa [UInt8.xor_self, UInt8.xor_self] at h

/-! ## Powers and logarithms -/

/-- The powers of two. -/
def power (n : ℕ) : UInt8 := times2^[n] 1

theorem power_add (n m : ℕ) : power (n + m) = times2^[n] (power m) :=
  Function.iterate_add_apply times2 n m 1

/-- The table doubles from entry to entry. -/
theorem gffBase_eq : gffBase = List.iterate times2 1 256 := by
  decide +kernel

theorem getD_gffBase {n : ℕ} (hn : n < 256) : gffBase.getD n 0 = power n := by
  have hlen : n < (List.iterate times2 1 256).length := by
    rwa [List.length_iterate]
  rw [gffBase_eq, List.getD_eq_getElem _ _ hlen, List.getElem_iterate, power]

theorem power_gfLog {a : UInt8} (ha : a ≠ 0) : power (gfLog a) = a ∧ gfLog a ≤ 255 := by
  have htables : a ≠ 0 → gffBase.getD (gfLog a) 0 = a := by
    apply forall_byte (p := fun a => a ≠ 0 → gffBase.getD (gfLog a) 0 = a)
    decide +kernel
  have hle : gfLog a ≤ 255 := Nat.le_of_lt_succ (UInt8.toNat_lt _)
  exact ⟨(getD_gffBase (by omega)).symm.trans (htables ha), hle⟩

theorem power_255 : power 255 = 1 := by
  rw [← getD_gffBase (by omega)]
  decide +kernel

theorem power_add_255 (n : ℕ) : power (n + 255) = power n := by
  rw [power_add, power_255]
  rfl

theorem power_mod (n : ℕ) : power (n % 255) = power n := by
  induction n using Nat.strong_induction_on with
  | _ n ih =>
    by_cases h : n < 255
    · rw [Nat.mod_eq_of_lt h]
    · obtain ⟨d, rfl⟩ := Nat.exists_eq_add_of_le' (Nat.le_of_not_lt h)
      rw [Nat.add_mod_right, ih d (by omega), power_add_255]

theorem power_ne_zero (n : ℕ) : power n ≠ 0 := by
  have htable : ∀ a ∈ gffBase, a ≠ 0 := by
    decide +kernel
  have hlt : n % 255 < 256 := (Nat.mod_lt n (by omega)).trans (by omega)
  have hlen : gffBase.length = 256 := by decide +kernel
  rw [← power_mod, ← getD_gffBase hlt, List.getD_eq_getElem _ _ (hlen ▸ hlt)]
  exact htable _ (List.getElem_mem _)

theorem gfMul_zero (a : UInt8) : gfMul a 0 = 0 := if_pos (Or.inr rfl)

theorem zero_gfMul (a : UInt8) : gfMul 0 a = 0 := if_pos (Or.inl rfl)

theorem gfMul_comm (a b : UInt8) : gfMul a b = gfMul b a := by
  simp only [gfMul, add_comm, or_comm]

/-- The product of two powers is the power of the sum. -/
theorem gfMul_power (n m : ℕ) : gfMul (power n) (power m) = power (n + m) := by
  have hlog : ∀ n, power (gfLog (power n)) = power n ∧ gfLog (power n) ≤ 255 :=
    fun n => power_gfLog (power_ne_zero n)
  have hsum : power (gfLog (power n) + gfLog (power m)) = power (n + m) := by
    rw [power_add, (hlog m).1, ← power_add, add_comm, power_add, (hlog n).1, ← power_add, add_comm]
  unfold gfMul
  rw [if_neg (not_or.mpr ⟨power_ne_zero n, power_ne_zero m⟩)]
  have hn := (hlog n).2
  have hm := (hlog m).2
  by_cases hwrap : 254 < gfLog (power n) + gfLog (power m)
  · simp only [if_pos hwrap]
    rw [getD_gffBase (by omega), ← hsum, ← power_add_255, Nat.sub_add_cancel (by omega)]
  · simp only [if_neg hwrap]
    rw [getD_gffBase (by omega), hsum]

theorem exists_power {a : UInt8} (ha : a ≠ 0) : ∃ n, a = power n :=
  ⟨gfLog a, (power_gfLog ha).1.symm⟩

/-- A product with a power doubles as often as the exponent says. -/
theorem power_gfMul (n : ℕ) (b : UInt8) : gfMul (power n) b = times2^[n] b := by
  by_cases hb : b = 0
  · rw [hb, gfMul_zero, iterate_times2_zero]
  · obtain ⟨m, rfl⟩ := exists_power hb
    rw [gfMul_power, power_add]

theorem gfMul_assoc (a b c : UInt8) : gfMul (gfMul a b) c = gfMul a (gfMul b c) := by
  by_cases ha : a = 0
  · rw [ha, zero_gfMul, zero_gfMul, zero_gfMul]
  · by_cases hb : b = 0
    · rw [hb, gfMul_zero, zero_gfMul, gfMul_zero]
    · obtain ⟨n, rfl⟩ := exists_power ha
      obtain ⟨m, rfl⟩ := exists_power hb
      rw [gfMul_power, power_gfMul, power_gfMul, power_gfMul, Function.iterate_add_apply]

theorem gfMul_xor (a b c : UInt8) : gfMul a (b ^^^ c) = gfMul a b ^^^ gfMul a c := by
  by_cases ha : a = 0
  · rw [ha, zero_gfMul, zero_gfMul, zero_gfMul, UInt8.xor_self]
  · obtain ⟨n, rfl⟩ := exists_power ha
    rw [power_gfMul, power_gfMul, power_gfMul, iterate_times2_xor]

theorem one_gfMul (a : UInt8) : gfMul 1 a = a := power_gfMul 0 a

theorem gfMul_gfInv {a : UInt8} (ha : a ≠ 0) : gfMul a (gfInv a) = 1 := by
  obtain ⟨hpower, hlt⟩ := power_gfLog ha
  have hinv : gfInv a = power (255 - gfLog a) := by
    rw [gfInv, if_neg ha, getD_gffBase (by omega)]
  rw [hinv]
  nth_rewrite 1 [← hpower]
  rw [gfMul_power, Nat.add_sub_cancel' hlt, power_255]

/-! ## The field -/

/-- A byte as an element of the field. -/
def GF256 := UInt8

namespace GF256

def ofByte (b : UInt8) : GF256 := b

def toByte (a : GF256) : UInt8 := a

@[simp] theorem ofByte_toByte (a : GF256) : ofByte a.toByte = a := rfl

instance : DecidableEq GF256 := inferInstanceAs (DecidableEq UInt8)
instance : Zero GF256 := ⟨(0 : UInt8)⟩
instance : One GF256 := ⟨(1 : UInt8)⟩
instance : Add GF256 := ⟨fun a b => UInt8.xor a b⟩
instance : Sub GF256 := ⟨fun a b => UInt8.xor a b⟩
instance : Neg GF256 := ⟨id⟩
instance : Mul GF256 := ⟨gfMul⟩
instance : Inv GF256 := ⟨gfInv⟩

instance : Field GF256 where
  add_assoc a b c := UInt8.xor_assoc a b c
  zero_add a := UInt8.zero_xor
  add_zero a := UInt8.xor_zero
  add_comm a b := UInt8.xor_comm a b
  neg_add_cancel a := UInt8.xor_self
  sub_eq_add_neg _ _ := rfl
  nsmul := nsmulRec
  zsmul := zsmulRec
  mul_assoc := gfMul_assoc
  mul_comm := gfMul_comm
  one_mul := one_gfMul
  mul_one a := (gfMul_comm a 1).trans (one_gfMul a)
  zero_mul := zero_gfMul
  mul_zero := gfMul_zero
  left_distrib := gfMul_xor
  right_distrib a b c := (gfMul_comm _ c).trans <| (gfMul_xor c a b).trans <| by
    rw [gfMul_comm c a, gfMul_comm c b]
    rfl
  exists_pair_ne := ⟨0, 1, by decide⟩
  mul_inv_cancel a ha := gfMul_gfInv ha
  inv_zero := rfl
  nnqsmul := _
  qsmul := _

end GF256

end MemEC.Common
