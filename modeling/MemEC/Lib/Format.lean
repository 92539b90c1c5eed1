import MemEC.Lib.Memory

/-!
# Formats

A format says how a value is written, and what is read at an offset of a memory in
which so many bytes are there. In a round trip the value that was written is read,
whatever stands around it. Then no value is written as another one is, nor as the
beginning of another one.
-/

namespace MemEC.Lib

/-- A way to write values and to read them; `parse m size offset` reads at `offset` of a memory of
which `size` bytes are there. -/
structure Format (α : Type) where
  generate : α → List UInt8
  parse : Memory → ℕ → ℕ → Option α

namespace Format

variable {α : Type} {F : Format α} {limit : ℕ} {Fits : α → Prop}

/-- What is written of a value that fits is read again from a memory of less than `limit` bytes. -/
def RoundTrip (F : Format α) (limit : ℕ) (Fits : α → Prop) : Prop :=
  ∀ a m size offset, Fits a → m.Holds offset (F.generate a) →
    offset + (F.generate a).length ≤ size → size < limit → F.parse m size offset = some a

/-- No value is written as the beginning of another one. -/
theorem RoundTrip.eq_of_begins (h : F.RoundTrip limit Fits) {a b : α} (ha : Fits a) (hb : Fits b)
    (hbegins : F.generate a <+: F.generate b) (hlimit : (F.generate b).length < limit) : a = b := by
  obtain ⟨more, hmore⟩ := hbegins
  have hheld := Memory.holds_write 0 0 (F.generate b)
  have hreadB := h b _ (F.generate b).length 0 hb hheld (by simp) hlimit
  have hlength : 0 + (F.generate a).length ≤ (F.generate b).length := by
    rw [← hmore, Nat.zero_add, List.length_append]
    exact Nat.le_add_right _ _
  have hheld' : ((0 : Memory).write 0 (F.generate b)).Holds 0 (F.generate a) := by
    rw [← hmore] at hheld ⊢
    exact (Memory.holds_append.mp hheld).1
  have hreadA := h a _ (F.generate b).length 0 ha hheld' hlength hlimit
  rw [hreadB] at hreadA
  exact (Option.some.inj hreadA).symm

theorem RoundTrip.mono (h : F.RoundTrip limit Fits) {n : ℕ} (hn : n ≤ limit) :
    F.RoundTrip n Fits :=
  fun a m size offset ha hheld hend hlt => h a m size offset ha hheld hend (hlt.trans_le hn)

end Format

end MemEC.Lib
