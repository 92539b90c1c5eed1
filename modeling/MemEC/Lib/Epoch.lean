import Mathlib.Tactic

/-!
# Epochs of a log

Some events of a log end an epoch. A relation that is asked of any two events
between which no epoch ends is asked of a new event and the events of the
running epoch each time the log grows.
-/

namespace MemEC.Lib

variable {α : Type} (ends : α → Bool) (R : α → α → Prop)

/-- The events of the running epoch, newest first. -/
def epoch (log : List α) : List α := log.reverse.takeWhile fun a => !ends a

/-- `R` holds of any two events between which no epoch ends. -/
def WithinEpochs (log : List α) : Prop :=
  ∀ (i j : ℕ) (a b : α), i < j → log[i]? = some a → log[j]? = some b →
    (∀ (m : ℕ) (c : α), i ≤ m → m < j → log[m]? = some c → ends c = false) → R a b

variable {ends R} {log : List α} {a e : α}

@[simp] theorem epoch_nil : epoch ends [] = [] := rfl

theorem epoch_concat (log : List α) (e : α) :
    epoch ends (log ++ [e]) = if ends e then [] else e :: epoch ends log := by
  rw [epoch, List.reverse_append, List.reverse_singleton, List.singleton_append,
    List.takeWhile_cons]
  cases ends e <;> rfl

theorem mem_epoch_concat : a ∈ epoch ends (log ++ [e]) ↔
    ends e = false ∧ (a = e ∨ a ∈ epoch ends log) := by
  rw [epoch_concat]
  cases ends e <;> simp

theorem mem_epoch_iff : a ∈ epoch ends log ↔
    ∃ i : ℕ, log[i]? = some a ∧ ∀ m c, i ≤ m → log[m]? = some c → ends c = false := by
  induction log using List.reverseRecOn with
  | nil => simp
  | append_singleton log e ih =>
    rw [mem_epoch_concat, ih]
    constructor
    · rintro ⟨he, rfl | ⟨i, hi, hrest⟩⟩
      · refine ⟨log.length, by simp, fun m c hm hc => ?_⟩
        have hml := (List.getElem?_eq_some_iff.mp hc).1
        rw [List.length_append, List.length_singleton] at hml
        obtain rfl : m = log.length := by omega
        rw [List.getElem?_concat_length] at hc
        exact Option.some.inj hc ▸ he
      · have hil := (List.getElem?_eq_some_iff.mp hi).1
        refine ⟨i, by rwa [List.getElem?_append_left hil], fun m c hm hc => ?_⟩
        rcases Nat.lt_or_ge m log.length with hml | hml
        · exact hrest m c hm (by rwa [List.getElem?_append_left hml] at hc)
        · have hml' := (List.getElem?_eq_some_iff.mp hc).1
          rw [List.length_append, List.length_singleton] at hml'
          obtain rfl : m = log.length := by omega
          rw [List.getElem?_concat_length] at hc
          exact Option.some.inj hc ▸ he
    · rintro ⟨i, hi, hrest⟩
      have hil := (List.getElem?_eq_some_iff.mp hi).1
      rw [List.length_append, List.length_singleton] at hil
      refine ⟨hrest log.length e (by omega) (by simp), ?_⟩
      rcases Nat.lt_or_ge i log.length with hlt | hge
      · rw [List.getElem?_append_left hlt] at hi
        refine Or.inr ⟨i, hi, fun m c hm hc => hrest m c hm ?_⟩
        rwa [List.getElem?_append_left (List.getElem?_eq_some_iff.mp hc).1]
      · obtain rfl : i = log.length := by omega
        rw [List.getElem?_concat_length] at hi
        exact Or.inl (Option.some.inj hi).symm

theorem withinEpochs_nil : WithinEpochs ends R [] := by
  intro i j a b _ hi
  exact absurd hi (by simp)

/-- A new event is compared with the events of the running epoch. -/
theorem withinEpochs_concat : WithinEpochs ends R (log ++ [e]) ↔
    WithinEpochs ends R log ∧ ∀ a ∈ epoch ends log, R a e := by
  constructor
  · intro h
    constructor
    · intro i j a b hij hi hj hrest
      have hjl := (List.getElem?_eq_some_iff.mp hj).1
      refine h i j a b hij ?_ ?_ fun m c him hmj hc => hrest m c him hmj ?_
      · rwa [List.getElem?_append_left (hij.trans hjl)]
      · rwa [List.getElem?_append_left hjl]
      · rwa [List.getElem?_append_left (hmj.trans hjl)] at hc
    · intro a ha
      obtain ⟨i, hi, hrest⟩ := mem_epoch_iff.mp ha
      have hil := (List.getElem?_eq_some_iff.mp hi).1
      refine h i log.length a e hil ?_ (by simp) fun m c him hml hc => hrest m c him ?_
      · rwa [List.getElem?_append_left hil]
      · rwa [List.getElem?_append_left hml] at hc
  · rintro ⟨h, hnew⟩ i j a b hij hi hj hrest
    have hjl := (List.getElem?_eq_some_iff.mp hj).1
    rw [List.length_append, List.length_singleton] at hjl
    have hil : i < log.length := by omega
    rw [List.getElem?_append_left hil] at hi
    rcases Nat.lt_or_ge j log.length with hlt | hge
    · rw [List.getElem?_append_left hlt] at hj
      refine h i j a b hij hi hj fun m c him hmj hc => hrest m c him hmj ?_
      rwa [List.getElem?_append_left (hmj.trans hlt)]
    · obtain rfl : j = log.length := by omega
      rw [List.getElem?_concat_length] at hj
      obtain rfl := Option.some.inj hj
      refine hnew a (mem_epoch_iff.mpr ⟨i, hi, fun m c him hc => ?_⟩)
      have hml := (List.getElem?_eq_some_iff.mp hc).1
      refine hrest m c him hml ?_
      rwa [List.getElem?_append_left hml]

theorem WithinEpochs.of_mem_epoch {b : α} (h : WithinEpochs ends R log) (ha : a ∈ epoch ends log)
    (hb : b ∈ epoch ends log) (hne : a ≠ b) : R a b ∨ R b a := by
  obtain ⟨i, hi, hirest⟩ := mem_epoch_iff.mp ha
  obtain ⟨j, hj, hjrest⟩ := mem_epoch_iff.mp hb
  rcases lt_trichotomy i j with hij | rfl | hji
  · exact Or.inl (h i j a b hij hi hj fun m c him _ => hirest m c him)
  · exact absurd (Option.some.inj (hi.symm.trans hj)) hne
  · exact Or.inr (h j i b a hji hj hi fun m c hjm _ => hjrest m c hjm)

end MemEC.Lib
