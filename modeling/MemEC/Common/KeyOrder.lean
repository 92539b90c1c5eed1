import MemEC.Common.Key
import Mathlib.Data.List.Lex
import Mathlib.Data.Prod.Lex

/-!
# The order of keys

`Key::operator<` compares the sizes, then the kinds, then the bytes up to the
first NUL, and at last the pointers that the keys carry. It is the order of the
ranks below, so it is strict and transitive. Two keys are equivalent when their
ranks are equal, which is neither what `operator==` says nor that their bytes are
the same.
-/

namespace MemEC.Common

/-! ## The order of strings -/

theorem strncmp_neg_iff (n : ℕ) (a b : List UInt8) : strncmp n a b < 0 ↔
    (cString n a).map UInt8.toNat < (cString n b).map UInt8.toNat := by
  induction n generalizing a b with
  | zero => simp [strncmp, cString]
  | succ n ih =>
    unfold strncmp
    rw [cString_succ, cString_succ]
    generalize a.headD 0 = x
    generalize b.headD 0 = y
    by_cases hxy : x = y
    · subst hxy
      rw [if_neg (not_not.mpr rfl)]
      by_cases hx : x = 0
      · simp only [if_pos hx, List.map_nil, lt_irrefl]
      · simp only [if_neg hx, List.map_cons, List.cons_lt_cons_iff, lt_irrefl, false_or, true_and,
          ih]
    · have hnat : x.toNat ≠ y.toNat := fun h => hxy (UInt8.toNat_inj.mp h)
      have hzero : ∀ z : UInt8, z = 0 ↔ z.toNat = 0 := fun z => UInt8.toNat_inj.symm
      rw [if_pos hxy]
      by_cases hx : x = 0
      · have hy : y ≠ 0 := fun hy => hxy (hx.trans hy.symm)
        have hx0 := (hzero x).mp hx
        have hy0 := mt (hzero y).mpr hy
        rw [if_pos hx, if_neg hy]
        simp only [List.map_nil, List.map_cons, List.nil_lt_cons, iff_true]
        omega
      · have hx0 := mt (hzero x).mpr hx
        rw [if_neg hx]
        by_cases hy : y = 0
        · have hy0 := (hzero y).mp hy
          rw [if_pos hy]
          simp only [List.map_nil, List.map_cons, List.not_lt_nil, iff_false]
          omega
        · simp only [if_neg hy, List.map_cons, List.cons_lt_cons_iff, hnat, false_and, or_false]
          omega

/-! ## Keys with their pointers -/

/-- A `Key` with its `ptr`. -/
structure AugmentedKey extends Key where
  ptr : ℕ

namespace AugmentedKey

/-- `Key::operator<`. -/
def less (a b : AugmentedKey) : Bool :=
  if a.size < b.size then true
  else if b.size < a.size then false
  else if !a.isLarge && b.isLarge then true
  else if a.isLarge && !b.isLarge then false
  else
    let ret := strncmp (Key.extent a.size a.isLarge) a.data b.data
    if ret < 0 then true
    else if 0 < ret then false
    else a.ptr < b.ptr

/-- The bytes of a key that `strncmp` looks at. -/
def chars (a : AugmentedKey) : List UInt8 := cString (Key.extent a.size a.isLarge) a.data

/-- What `operator<` orders keys by. -/
def rank (a : AugmentedKey) : ℕ ×ₗ Bool ×ₗ List ℕ ×ₗ ℕ :=
  toLex (a.size, toLex (a.isLarge, toLex (a.chars.map UInt8.toNat, a.ptr)))

theorem less_iff (a b : AugmentedKey) : a.less b = true ↔ a.rank < b.rank := by
  unfold less rank chars
  simp only [Prod.Lex.toLex_lt_toLex]
  rcases Nat.lt_trichotomy a.size b.size with hlt | heq | hgt
  · rw [if_pos hlt]
    exact iff_of_true rfl (.inl hlt)
  · rw [if_neg heq.not_lt, if_neg heq.symm.not_lt]
    simp only [heq, lt_irrefl, false_or, true_and]
    rcases Bool.eq_or_eq_not a.isLarge b.isLarge with hkind | hkind
    · -- Both keys are of one size and kind, so the strings decide, and then the pointers.
      simp only [hkind, Bool.not_and_self, Bool.and_not_self, Bool.false_eq_true, if_false,
        lt_irrefl, false_or, true_and, ← strncmp_neg_iff]
      generalize hret : strncmp (Key.extent b.size b.isLarge) a.data b.data = ret
      have hchars : (cString (Key.extent b.size b.isLarge) a.data).map UInt8.toNat =
          (cString (Key.extent b.size b.isLarge) b.data).map UInt8.toNat ↔ ret = 0 := by
        rw [(List.map_injective_iff.mpr fun _ _ => UInt8.toNat_inj.mp).eq_iff,
          ← strncmp_eq_zero_iff, hret]
      rw [hchars]
      split_ifs with hneg hpos
      · exact iff_of_true rfl (.inl hneg)
      · exact iff_of_false id (by omega)
      · rw [decide_eq_true_eq]
        omega
    · rw [hkind]
      cases b.isLarge with
      | true => simp
      | false => simp
  · rw [if_neg hgt.not_gt, if_pos hgt]
    exact iff_of_false Bool.false_ne_true (by omega)

/-- The sizes, the kinds and all bytes are equal. -/
def SameKey (a b : AugmentedKey) : Prop :=
  a.size = b.size ∧ a.isLarge = b.isLarge ∧ a.data = b.data

theorem rank_eq_iff (a b : AugmentedKey) : a.rank = b.rank ↔
    a.size = b.size ∧ a.isLarge = b.isLarge ∧ a.chars = b.chars ∧ a.ptr = b.ptr := by
  unfold rank
  simp only [EmbeddingLike.apply_eq_iff_eq, Prod.mk.injEq,
    (List.map_injective_iff.mpr fun _ _ => UInt8.toNat_inj.mp).eq_iff]

/-- Equality, order and hash agree on the keys of `S`, and so do the maps over keys: one without
order tells keys apart by `Key.ident`, an ordered one by `operator<`. -/
structure Lawful (S : Set AugmentedKey) : Prop where
  equal_iff : ∀ a ∈ S, ∀ b ∈ S, a.equal b.toKey = true ↔ a.SameKey b
  less_irrefl : ∀ a ∈ S, a.less a = false
  less_trans : ∀ a ∈ S, ∀ b ∈ S, ∀ c ∈ S, a.less b = true → b.less c = true → a.less c = true
  equivalent_iff : ∀ a ∈ S, ∀ b ∈ S, (a.less b = false ∧ b.less a = false) ↔ a.SameKey b
  hash_eq : ∀ a ∈ S, ∀ b ∈ S, a.equal b.toKey = true → a.hash = b.hash
  ident_iff : ∀ a ∈ S, ∀ b ∈ S, a.ident = b.ident ↔ a.SameKey b

/-- Keys of one size and kind that are the same up to the first NUL are the same behind it too, and
carry one pointer. -/
def NulApart (S : Set AugmentedKey) : Prop :=
  ∀ a ∈ S, ∀ b ∈ S, a.size = b.size → a.isLarge = b.isLarge → a.chars = b.chars →
    a.data = b.data ∧ a.ptr = b.ptr

theorem equivalent_iff_rank (a b : AugmentedKey) :
    (a.less b = false ∧ b.less a = false) ↔ a.rank = b.rank := by
  rw [← Bool.not_eq_true, ← Bool.not_eq_true, less_iff, less_iff, not_lt, not_lt]
  exact ⟨fun h => le_antisymm h.2 h.1, fun h => ⟨h.ge, h.le⟩⟩

theorem equal_iff_chars (a b : AugmentedKey) : a.equal b.toKey = true ↔
    a.size = b.size ∧ a.isLarge = b.isLarge ∧ a.chars = b.chars := Key.equal_iff a.toKey b.toKey

theorem SameKey.chars_eq {a b : AugmentedKey} (h : a.SameKey b) : a.chars = b.chars := by
  obtain ⟨hs, hl, hd⟩ := h
  unfold chars
  rw [hs, hl, hd]

/-- Equality, order and hash agree on keys that differ in front of a NUL if they differ at all. -/
theorem lawful_iff (S : Set AugmentedKey) : Lawful S ↔ NulApart S := by
  constructor
  · intro h a ha b hb hs hl hc
    have hsame : a.SameKey b :=
      (h.equal_iff a ha b hb).mp ((equal_iff_chars a b).mpr ⟨hs, hl, hc⟩)
    have hrank := (equivalent_iff_rank a b).mp ((h.equivalent_iff a ha b hb).mpr hsame)
    exact ⟨hsame.2.2, ((rank_eq_iff a b).mp hrank).2.2.2⟩
  · intro h
    have hequal : ∀ a ∈ S, ∀ b ∈ S, a.equal b.toKey = true ↔ a.SameKey b := by
      intro a ha b hb
      rw [equal_iff_chars]
      constructor
      · exact fun ⟨hs, hl, hc⟩ => ⟨hs, hl, (h a ha b hb hs hl hc).1⟩
      · exact fun hsame => ⟨hsame.1, hsame.2.1, hsame.chars_eq⟩
    have hhash : ∀ a b : AugmentedKey, a.SameKey b → a.hash = b.hash := by
      intro a b hsame
      unfold Key.hash
      rw [hsame.2.2]
    constructor
    · exact hequal
    · exact fun a _ => ((equivalent_iff_rank a a).mpr rfl).1
    · intro a _ b _ c _ hab hbc
      exact (less_iff a c).mpr (((less_iff a b).mp hab).trans ((less_iff b c).mp hbc))
    · intro a ha b hb
      rw [equivalent_iff_rank, rank_eq_iff]
      constructor
      · exact fun ⟨hs, hl, hc, _⟩ => ⟨hs, hl, (h a ha b hb hs hl hc).1⟩
      · intro hsame
        exact ⟨hsame.1, hsame.2.1, hsame.chars_eq,
          (h a ha b hb hsame.1 hsame.2.1 hsame.chars_eq).2⟩
    · exact fun a ha b hb heq => hhash a b ((hequal a ha b hb).mp heq)
    · intro a ha b hb
      rw [Key.ident_eq_iff, hequal a ha b hb]
      exact ⟨fun hi => hi.2, fun hsame => ⟨hhash a b hsame, hsame⟩⟩

/-- A split of a large object in chunks of 4096 bytes. -/
def firstBytesNul (splitOffset : ℕ) : AugmentedKey := ⟨Key.split [107] splitOffset, 0⟩

/-- The offsets of the second and the third split begin with a NUL, so the two pass for one key. -/
theorem not_lawful_univ : ¬Lawful Set.univ := by
  intro h
  have hsame := (h.equal_iff (firstBytesNul 4088) trivial (firstBytesNul 8176) trivial).mp
    (by decide)
  exact absurd hsame.2.2 (by decide)

end AugmentedKey

end MemEC.Common
