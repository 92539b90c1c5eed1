import MemEC.Lib.Memory

/-!
# Loops that accumulate

A loop that XORs windows of its input into a result adds to the result
something that depends additively on the input. This is all one has to know
about such a loop in order to split its input and to start it from any result.
-/

namespace MemEC.Lib

variable {D S ι : Type} [AddCommMonoid D] [AddCommMonoid S]

/-- `F d` adds to the result something that is additive in the input `d`. -/
def Accumulates (F : D → S → S) : Prop := ∃ g : D →+ S, ∀ d s, F d s = s + g d

namespace Accumulates

variable {F G : D → S → S}

theorem skip : Accumulates fun (_ : D) (s : S) => s := ⟨0, fun _ s => (add_zero s).symm⟩

theorem add (g : D →+ S) : Accumulates fun d s => s + g d := ⟨g, fun _ _ => rfl⟩

/-- One loop after the other. -/
theorem comp (hF : Accumulates F) (hG : Accumulates G) : Accumulates fun d s => G d (F d s) := by
  obtain ⟨f, hf⟩ := hF
  obtain ⟨g, hg⟩ := hG
  refine ⟨f + g, fun d s => ?_⟩
  calc G d (F d s) = s + f d + g d := by rw [hg, hf]
    _ = s + (f + g) d := by rw [add_assoc, AddMonoidHom.add_apply]

theorem foldl {F : ι → D → S → S} (l : List ι) (h : ∀ x, Accumulates (F x)) :
    Accumulates fun d s => l.foldl (fun s x => F x d s) s := by
  induction l with
  | nil => exact skip
  | cons x l ih => exact (h x).comp ih

variable {T : Type} [AddCommMonoid T]

theorem fst (hF : Accumulates F) : Accumulates fun d (s : S × T) => (F d s.1, s.2) := by
  obtain ⟨f, hf⟩ := hF
  refine ⟨f.prod 0, fun d s => Prod.ext (hf d s.1) ?_⟩
  exact (add_zero s.2).symm

theorem snd (hF : Accumulates F) : Accumulates fun d (s : T × S) => (s.1, F d s.2) := by
  obtain ⟨f, hf⟩ := hF
  refine ⟨(0 : D →+ T).prod f, fun d s => Prod.ext ?_ (hf d s.2)⟩
  exact (add_zero s.1).symm

theorem xorInto (g : D →+ Memory) (doff soff n : ℕ) :
    Accumulates fun d s => Memory.xorInto s doff (g d) soff n := by
  refine ⟨(Memory.windowHom soff doff n).comp g, fun d s => ?_⟩
  exact Memory.xorInto_eq_add s doff (g d) soff n

theorem eq_add (h : Accumulates F) (d : D) (s : S) : F d s = s + F d 0 := by
  obtain ⟨g, hg⟩ := h
  rw [hg, hg d 0, zero_add]

theorem map_add (h : Accumulates F) (d e : D) : F (d + e) 0 = F d 0 + F e 0 := by
  obtain ⟨g, hg⟩ := h
  rw [hg, hg, hg, zero_add, zero_add, zero_add, AddMonoidHom.map_add]

theorem map_zero (h : Accumulates F) : F 0 0 = 0 := by
  obtain ⟨g, hg⟩ := h
  rw [hg, zero_add, AddMonoidHom.map_zero]

/-- What the loop adds to a result, as a homomorphism. -/
def hom (h : Accumulates F) : D →+ S where
  toFun d := F d 0
  map_zero' := h.map_zero
  map_add' := h.map_add

@[simp] theorem hom_apply (h : Accumulates F) (d : D) : h.hom d = F d 0 := rfl

end Accumulates

end MemEC.Lib
