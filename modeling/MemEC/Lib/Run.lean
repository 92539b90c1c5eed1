import Mathlib.Tactic

/-!
# Runs

A run folds a step function over a list of operations. What every step
preserves holds at the end of every run; where a step preserves it only under
a condition on the states before and after it, the condition is asked of every
state that the run goes through.
-/

namespace MemEC.Lib

variable {σ α : Type}

/-- The state after the operations `ops`. -/
def run (step : σ → α → σ) (s : σ) (ops : List α) : σ := ops.foldl step s

variable {step : σ → α → σ} {s : σ}

@[simp] theorem run_nil : run step s [] = s := rfl

@[simp] theorem run_cons (a : α) (ops : List α) : run step s (a :: ops) = run step (step s a) ops :=
  rfl

theorem run_append (as bs : List α) : run step s (as ++ bs) = run step (run step s as) bs :=
  List.foldl_append

theorem run_concat (ops : List α) (a : α) : run step s (ops ++ [a]) = step (run step s ops) a :=
  run_append ops [a]

/-- What every step preserves, every run preserves. -/
theorem run_invariant {Inv : σ → Prop} (h : Inv s) (hstep : ∀ s a, Inv s → Inv (step s a))
    (ops : List α) : Inv (run step s ops) := by
  induction ops generalizing s with
  | nil => exact h
  | cons a ops ih => exact ih (hstep s a h)

/-- An invariant that a step preserves when the states around it are good holds at the end of a
run all of whose states are good. -/
theorem run_invariant_of_good {Inv : σ → Prop} (Good : σ → Prop) (h : Inv s)
    (hstep : ∀ s a, Inv s → Good s → Good (step s a) → Inv (step s a)) (ops : List α)
    (hgood : ∀ n ≤ ops.length, Good (run step s (ops.take n))) : Inv (run step s ops) := by
  induction ops generalizing s with
  | nil => exact h
  | cons a ops ih =>
    refine ih (hstep s a h ?_ ?_) fun n hn => ?_
    · exact hgood 0 (Nat.zero_le _)
    · exact hgood 1 (by simp)
    · exact hgood (n + 1) (Nat.succ_le_succ hn)

/-- An invariant that a step preserves when the operation is allowed in its state holds at the end
of a run all of whose operations are allowed. -/
theorem run_invariant_of_allowed {Inv : σ → Prop} {Allowed : σ → α → Prop} (h : Inv s)
    (hstep : ∀ s a, Inv s → Allowed s a → Inv (step s a)) (ops : List α)
    (hallowed : ∀ n a, ops[n]? = some a → Allowed (run step s (ops.take n)) a) :
    Inv (run step s ops) := by
  induction ops generalizing s with
  | nil => exact h
  | cons a ops ih =>
    refine ih (hstep s a h ?_) fun n b hb => ?_
    · exact hallowed 0 a rfl
    · exact hallowed (n + 1) b hb

/-- The history of a run is good at all times exactly when all its operations are allowed: the
first one that is not allowed spoils it. -/
theorem good_iff_allowed {Inv Good : List α → Prop} {Allowed : List α → α → Prop} (h : Inv [])
    (hgood : ∀ past, Inv past → Good past)
    (hstep : ∀ past a, Inv past → Allowed past a → Inv (past ++ [a]))
    (hbad : ∀ past a, Inv past → ¬ Allowed past a → ¬ Good (past ++ [a])) (ops : List α) :
    (∀ n ≤ ops.length, Good (ops.take n)) ↔
      ∀ n a, ops[n]? = some a → Allowed (ops.take n) a := by
  suffices hmain : ∀ n ≤ ops.length,
      ((∀ k ≤ n, Good (ops.take k)) ∨ ∀ k < n, ∀ a, ops[k]? = some a → Allowed (ops.take k) a) →
        Inv (ops.take n) ∧ ∀ k < n, ∀ a, ops[k]? = some a → Allowed (ops.take k) a by
    constructor
    · intro hall n a ha
      have hn : n < ops.length := (List.getElem?_eq_some_iff.mp ha).1
      exact (hmain ops.length le_rfl (.inl hall)).2 n hn a ha
    · intro hall n hn
      exact hgood _ (hmain n hn (.inr fun k _ => hall k)).1
  intro n
  induction n with
  | zero => exact fun _ _ => ⟨h, fun k hk => absurd hk (Nat.not_lt_zero k)⟩
  | succ n ih =>
    intro hn hcase
    obtain ⟨hinv, hpast⟩ := ih (by omega) (hcase.imp (fun hall k hk => hall k (by omega))
      fun hall k hk => hall k (by omega))
    have hlt : n < ops.length := by omega
    have htake : ops.take (n + 1) = ops.take n ++ [ops[n]] := List.take_succ_eq_append_getElem hlt
    have hallowed : Allowed (ops.take n) ops[n] := by
      rcases hcase with hall | hall
      · by_contra hnot
        apply hbad _ _ hinv hnot
        rw [← htake]
        exact hall (n + 1) le_rfl
      · exact hall n (Nat.lt_succ_self n) _ (List.getElem?_eq_getElem hlt)
    constructor
    · rw [htake]
      exact hstep _ _ hinv hallowed
    · intro k hk a ha
      rcases Nat.lt_succ_iff_lt_or_eq.mp hk with hk | rfl
      · exact hpast k hk a ha
      · obtain rfl : ops[k] = a := Option.some.inj ((List.getElem?_eq_getElem hlt).symm.trans ha)
        exact hallowed

/-! ## Steps that may have no result -/

/-- The state after the operations `ops`, if every step has a result. -/
def tryRun (step : σ → α → Option σ) (s : σ) (ops : List α) : Option σ := ops.foldlM step s

variable {step : σ → α → Option σ}

@[simp] theorem tryRun_nil : tryRun step s [] = some s := rfl

theorem tryRun_cons (a : α) (ops : List α) :
    tryRun step s (a :: ops) = (step s a).bind fun s' => tryRun step s' ops := rfl

/-- What every step with a result preserves, every run with a result preserves. -/
theorem tryRun_preserves (Inv : σ → Prop) {s' : σ} (h : Inv s)
    (hstep : ∀ s a s', Inv s → step s a = some s' → Inv s') {ops : List α}
    (hs' : tryRun step s ops = some s') : Inv s' := by
  induction ops generalizing s with
  | nil =>
    obtain rfl : s = s' := Option.some.inj hs'
    exact h
  | cons a ops ih =>
    rw [tryRun_cons] at hs'
    obtain ⟨s₁, hs₁, hrest⟩ := Option.bind_eq_some_iff.mp hs'
    exact ih (hstep s a s₁ h hs₁) hrest

/-- When every step that is allowed has a result and preserves the invariant, a run of allowed
operations has a result with the invariant. -/
theorem tryRun_invariant (Inv : σ → Prop) (Allowed : σ → α → Prop) (h : Inv s)
    (hstep : ∀ s a, Inv s → Allowed s a → ∃ s', step s a = some s' ∧ Inv s') (ops : List α)
    (hallowed : ∀ n a s', ops[n]? = some a → tryRun step s (ops.take n) = some s' →
      Allowed s' a) : ∃ s', tryRun step s ops = some s' ∧ Inv s' := by
  induction ops generalizing s with
  | nil => exact ⟨s, rfl, h⟩
  | cons a ops ih =>
    obtain ⟨s₁, hs₁, h₁⟩ := hstep s a h (hallowed 0 a s rfl rfl)
    have hrest := ih h₁ fun n b s' hb hs' => hallowed (n + 1) b s' hb (by
      rw [List.take_succ_cons, tryRun_cons, hs₁]
      exact hs')
    rwa [tryRun_cons, hs₁]

theorem tryRun_append (as bs : List α) :
    tryRun step s (as ++ bs) = (tryRun step s as).bind fun s' => tryRun step s' bs :=
  List.foldlM_append

theorem tryRun_concat (ops : List α) (a : α) :
    tryRun step s (ops ++ [a]) = (tryRun step s ops).bind fun s' => step s' a := by
  rw [tryRun_append]
  simp [tryRun_cons]

/-- As `tryRun_invariant`, for an invariant that speaks of the operations so far. -/
theorem tryRun_invariant_history (Inv : List α → σ → Prop) (Allowed : σ → α → Prop) (h : Inv [] s)
    (hstep : ∀ past s' a, tryRun step s past = some s' → Inv past s' → Allowed s' a →
      ∃ s'', step s' a = some s'' ∧ Inv (past ++ [a]) s'') (ops : List α)
    (hallowed : ∀ n a s', ops[n]? = some a → tryRun step s (ops.take n) = some s' →
      Allowed s' a) : ∃ s', tryRun step s ops = some s' ∧ Inv ops s' := by
  induction ops using List.reverseRecOn with
  | nil => exact ⟨s, rfl, h⟩
  | append_singleton ops a ih =>
    obtain ⟨s₁, hs₁, h₁⟩ := ih fun n b s' hb hs' => by
      have hn : n < ops.length := (List.getElem?_eq_some_iff.mp hb).1
      refine hallowed n b s' ?_ ?_
      · rwa [List.getElem?_append_left hn]
      · rwa [List.take_append_of_le_length hn.le]
    have ha : Allowed s₁ a := hallowed ops.length a s₁ (by simp) (by simpa using hs₁)
    obtain ⟨s₂, hs₂, h₂⟩ := hstep ops s₁ a hs₁ h₁ ha
    refine ⟨s₂, ?_, h₂⟩
    rw [tryRun_concat, hs₁]
    exact hs₂

/-- As `good_iff_allowed`, for the states that a run reaches: the first operation that is not allowed
has a bad result. -/
theorem tryRun_reached_iff_allowed {Inv Good : List α → σ → Prop} {Allowed : σ → α → Prop}
    (h : Inv [] s) (hgood : ∀ past s', Inv past s' → Good past s')
    (hstep : ∀ past s' a s'', tryRun step s past = some s' → Inv past s' → Allowed s' a →
      step s' a = some s'' → Inv (past ++ [a]) s'')
    (hbad : ∀ past s' a, Inv past s' → ¬ Allowed s' a →
      ∃ s'', step s' a = some s'' ∧ ¬ Good (past ++ [a]) s'') (ops : List α) :
    (∀ n ≤ ops.length, ∀ s', tryRun step s (ops.take n) = some s' → Good (ops.take n) s') ↔
      ∀ n a s', ops[n]? = some a → tryRun step s (ops.take n) = some s' → Allowed s' a := by
  -- the invariant holds as long as it tells that the next operation is allowed
  have hrun : (∀ n a s', ops[n]? = some a → tryRun step s (ops.take n) = some s' →
        Inv (ops.take n) s' → Allowed s' a) →
      ∀ n ≤ ops.length, ∀ s', tryRun step s (ops.take n) = some s' → Inv (ops.take n) s' := by
    intro hnext n
    induction n with
    | zero =>
      rintro - s' hs'
      obtain rfl : s = s' := Option.some.inj hs'
      exact h
    | succ n ih =>
      intro hn s' hs'
      rw [List.take_succ_eq_append_getElem hn, tryRun_concat] at hs'
      obtain ⟨s₁, hs₁, hs'⟩ := Option.bind_eq_some_iff.mp hs'
      have hinv := ih (Nat.le_of_succ_le hn) s₁ hs₁
      have hallowed := hnext n ops[n] s₁ (List.getElem?_eq_getElem hn) hs₁ hinv
      rw [List.take_succ_eq_append_getElem hn]
      exact hstep _ _ _ _ hs₁ hinv hallowed hs'
  constructor
  · intro hall
    have hnext : ∀ n a s', ops[n]? = some a → tryRun step s (ops.take n) = some s' →
        Inv (ops.take n) s' → Allowed s' a := by
      intro n a s' ha hs' hinv
      obtain ⟨hn, rfl⟩ := List.getElem?_eq_some_iff.mp ha
      by_contra hnot
      obtain ⟨s'', hs'', hbad⟩ := hbad _ _ _ hinv hnot
      have hnext := hall (n + 1) hn s''
      rw [List.take_succ_eq_append_getElem hn, tryRun_concat, hs'] at hnext
      exact hbad (hnext hs'')
    intro n a s' ha hs'
    have hn : n < ops.length := (List.getElem?_eq_some_iff.mp ha).1
    exact hnext n a s' ha hs' (hrun hnext n hn.le s' hs')
  · intro hallowed n hn s' hs'
    exact hgood _ _ (hrun (fun n a s' ha hs' _ => hallowed n a s' ha hs') n hn s' hs')

/-- As `good_iff_allowed`, where an operation that is not allowed has no result or a bad one. -/
theorem tryRun_good_iff_allowed {Inv Good : List α → σ → Prop} {Allowed : σ → α → Prop}
    (h : Inv [] s) (hgood : ∀ past s', Inv past s' → Good past s')
    (hstep : ∀ past s' a, tryRun step s past = some s' → Inv past s' → Allowed s' a →
      ∃ s'', step s' a = some s'' ∧ Inv (past ++ [a]) s'')
    (hbad : ∀ past s' a s'', Inv past s' → ¬ Allowed s' a → step s' a = some s'' →
      ¬ Good (past ++ [a]) s'') (ops : List α) :
    (∀ n ≤ ops.length, ∃ s', tryRun step s (ops.take n) = some s' ∧ Good (ops.take n) s') ↔
      ∀ n a s', ops[n]? = some a → tryRun step s (ops.take n) = some s' → Allowed s' a := by
  have hreached : (∀ n ≤ ops.length, ∀ s', tryRun step s (ops.take n) = some s' →
        Good (ops.take n) s') ↔
      ∀ n a s', ops[n]? = some a → tryRun step s (ops.take n) = some s' →
        (step s' a).isSome → Allowed s' a := by
    refine tryRun_reached_iff_allowed h hgood ?_ ?_ ops
    · intro past s' a s'' hpast hinv hallowed hs''
      obtain ⟨s₁, hs₁, hinv₁⟩ := hstep past s' a hpast hinv (hallowed (by rw [hs'']; rfl))
      obtain rfl : s₁ = s'' := Option.some.inj (hs₁.symm.trans hs'')
      exact hinv₁
    · intro past s' a hinv hnot
      obtain ⟨hsome, hnot⟩ := Classical.not_imp.mp hnot
      obtain ⟨s'', hs''⟩ := Option.isSome_iff_exists.mp hsome
      exact ⟨s'', hs'', hbad past s' a s'' hinv hnot hs''⟩
  constructor
  · intro hall n a s' ha hs'
    refine hreached.mp (fun k hk s₁ hs₁ => ?_) n a s' ha hs' ?_
    · obtain ⟨s₂, hs₂, hgood₂⟩ := hall k hk
      obtain rfl : s₂ = s₁ := Option.some.inj (hs₂.symm.trans hs₁)
      exact hgood₂
    · obtain ⟨hn, rfl⟩ := List.getElem?_eq_some_iff.mp ha
      obtain ⟨s'', hs'', -⟩ := hall (n + 1) hn
      rw [List.take_succ_eq_append_getElem hn, tryRun_concat, hs', Option.bind_some] at hs''
      rw [hs'']
      rfl
  · intro hallowed n hn
    obtain ⟨s', hs', hinv⟩ := tryRun_invariant_history Inv Allowed h hstep (ops.take n)
      fun k a s' ha hs' => by
        have hk : k < (ops.take n).length := (List.getElem?_eq_some_iff.mp ha).1
        rw [List.length_take] at hk
        refine hallowed k a s' ?_ ?_
        · rwa [List.getElem?_take_of_lt (by omega)] at ha
        · rwa [List.take_take, min_eq_left (by omega)] at hs'
    exact ⟨s', hs', hgood _ s' hinv⟩

end MemEC.Lib
