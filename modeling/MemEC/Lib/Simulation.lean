import Mathlib.Tactic

/-!
# Simulation

A machine carries out operations, each with a response. A specification has states
of its own and says which responses are right in a state, and what state comes
after a response. It may leave a response open, and goes on from the one that was
given.

When each step of the machine gives a right response and keeps a relation between
the states, the specification explains the whole history of a run.
-/

namespace MemEC.Lib

variable {σ τ α ρ : Type}

/-- The state after the operations, and the operations with their responses, if every step has a
result. -/
def history (step : σ → α → Option (σ × ρ)) : σ → List α → Option (σ × List (α × ρ))
  | s, [] => some (s, [])
  | s, a :: ops =>
    (step s a).bind fun p => (history step p.1 ops).map fun q => (q.1, (a, p.2) :: q.2)

/-- The right responses to an operation, and the state after an operation with its response. -/
structure Spec (τ α ρ : Type) where
  right : τ → α → ρ → Prop
  next : τ → α → ρ → τ

namespace Spec

variable (spec : Spec τ α ρ)

/-- Every response of the history is right when it is given. -/
def Explains : τ → List (α × ρ) → Prop
  | _, [] => True
  | t, e :: past => spec.right t e.1 e.2 ∧ Explains (spec.next t e.1 e.2) past

/-- The state after the history. -/
def after (t : τ) (past : List (α × ρ)) : τ := past.foldl (fun t e => spec.next t e.1 e.2) t

variable {spec} {t : τ}

theorem Explains.append {past more : List (α × ρ)} :
    spec.Explains t (past ++ more) ↔
      spec.Explains t past ∧ spec.Explains (spec.after t past) more := by
  induction past generalizing t with
  | nil => exact (and_iff_right trivial).symm
  | cons e past ih =>
    rw [List.cons_append, Explains, Explains, ih, and_assoc]
    rfl

end Spec

/-- Where an operation is allowed, the machine gives a right response and stays in the relation. -/
structure Simulates (step : σ → α → Option (σ × ρ)) (spec : Spec τ α ρ)
    (Allowed : σ → τ → α → Prop) (Rel : σ → τ → Prop) : Prop where
  step : ∀ s t a s' r, Rel s t → Allowed s t a → step s a = some (s', r) →
    spec.right t a r ∧ Rel s' (spec.next t a r)

/-- The operations are allowed one after the other, with the states of machine and specification
when they come. -/
def AllowedRun (step : σ → α → Option (σ × ρ)) (spec : Spec τ α ρ)
    (Allowed : σ → τ → α → Prop) : σ → τ → List α → Prop
  | _, _, [] => True
  | s, t, a :: ops => Allowed s t a ∧ ∀ s' r, step s a = some (s', r) →
      AllowedRun step spec Allowed s' (spec.next t a r) ops

instance AllowedRun.decidable (step : σ → α → Option (σ × ρ)) (spec : Spec τ α ρ)
    (Allowed : σ → τ → α → Prop) [∀ s t a, Decidable (Allowed s t a)] :
    ∀ s t ops, Decidable (AllowedRun step spec Allowed s t ops)
  | _, _, [] => .isTrue trivial
  | s, t, a :: ops =>
    have : Decidable (∀ s' r, step s a = some (s', r) →
        AllowedRun step spec Allowed s' (spec.next t a r) ops) :=
      match hstep : step s a with
      | none => .isTrue fun _ _ h => by cases h
      | some (s', r) =>
        have := decidable step spec Allowed s' (spec.next t a r) ops
        decidable_of_iff (AllowedRun step spec Allowed s' (spec.next t a r) ops)
          ⟨fun h _ _ heq => by cases heq; exact h, fun h => h s' r rfl⟩
    inferInstanceAs (Decidable (_ ∧ _))

end MemEC.Lib
