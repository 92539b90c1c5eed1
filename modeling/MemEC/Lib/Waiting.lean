import Mathlib.Data.List.AList
import Mathlib.Tactic

/-!
# Waiting for work in progress

Some work is to be done at most once for each key. The first operation that
needs it starts the work, and those that come later are put on a list until the
work is reported. A report takes the operations that it covers from the list;
when none is left, the list is dropped. Keys whose work is finished are kept.

A history has the calls with their replies. What is owed to the operations is
read off the history alone.
-/

namespace MemEC.Lib

variable {κ ω : Type} [DecidableEq κ]

/-- The lists of the keys in progress, and the keys that are finished. -/
structure Waiting (κ ω : Type) [DecidableEq κ] where
  lists : AList fun _ : κ => List ω
  finished : Finset κ

namespace Waiting

/-- An operation needs the work of a key, or the work is reported. A report has two flags: whether
the key is then finished when there was no list, and when there was one. -/
inductive Call (κ ω : Type)
  | insert (k : κ) (ops : List ω)
  | delete (k : κ) (covers : ω → Bool) (ifAbsent ifPresent : Bool)

/-- An operation is told to start the work, to wait, or that the work is finished. A report returns
the operations that it covers, if there is a list. -/
inductive Reply (ω : Type)
  | start
  | wait
  | finished
  | returned (ops : Option (List ω))

abbrev History (κ ω : Type) := List (Call κ ω × Reply ω)

def empty : Waiting κ ω := ⟨∅, ∅⟩

variable (w : Waiting κ ω)

def insert (k : κ) (ops : List ω) : Waiting κ ω × Reply ω :=
  match w.lists.lookup k with
  | some waiting => ({ w with lists := w.lists.insert k (waiting ++ ops) }, .wait)
  | none =>
    if k ∈ w.finished then (w, .finished)
    else ({ w with lists := w.lists.insert k ops }, .start)

def delete (k : κ) (covers : ω → Bool) (ifAbsent ifPresent : Bool) : Waiting κ ω × Reply ω :=
  match w.lists.lookup k with
  | none => ({ w with finished := if ifAbsent then Insert.insert k w.finished else w.finished },
      .returned none)
  | some waiting =>
    let rest := waiting.filter fun op => !covers op
    ({ lists := if rest.isEmpty then w.lists.erase k else w.lists.insert k rest
       finished := if ifPresent then Insert.insert k w.finished else w.finished },
      .returned (some (waiting.filter covers)))

def serve : Call κ ω → Waiting κ ω × Reply ω
  | .insert k ops => w.insert k ops
  | .delete k covers ifAbsent ifPresent => w.delete k covers ifAbsent ifPresent

/-! ## What a history says -/

/-- What a call changes of the operations that are owed a return of key `k`. -/
def owe (k : κ) (ops : List ω) : Call κ ω × Reply ω → List ω
  | (.insert k' new, .start) => if k' = k then ops ++ new else ops
  | (.insert k' new, .wait) => if k' = k then ops ++ new else ops
  | (.delete k' covers _ _, _) => if k' = k then ops.filter fun op => !covers op else ops
  | _ => ops

/-- The operations that were told to start or to wait and were not covered by a report since. -/
def owed (h : History κ ω) (k : κ) : List ω := h.foldl (owe k) []

/-- What a call changes of whether the work of `k` was started. A report of a list that does not
finish the key lets the work be started again. -/
def occupy (k : κ) (busy : Bool) : Call κ ω × Reply ω → Bool
  | (.insert k' _, .start) => busy || k' = k
  | (.delete k' _ _ false, .returned (some _)) => busy && k' ≠ k
  | _ => busy

/-- The work of `k` was started and may not be started again. -/
def busy (h : History κ ω) (k : κ) : Bool := h.foldl (occupy k) false

/-- The operations for `k` that a call puts on the list. -/
def registers (k : κ) : Call κ ω × Reply ω → List ω
  | (.insert k' ops, .start) => if k' = k then ops else []
  | (.insert k' ops, .wait) => if k' = k then ops else []
  | _ => []

/-- The operations for `k` that a call returns. -/
def returns (k : κ) : Call κ ω × Reply ω → List ω
  | (.delete k' _ _ _, .returned ops) => if k' = k then ops.getD [] else []
  | _ => []

/-- Every operation that was put on the list of `k` was returned once or is owed a return. -/
def Conserved (h : History κ ω) (k : κ) : Prop :=
  (h.flatMap (registers k)).Perm (h.flatMap (returns k) ++ owed h k)

/-- A report has finished the key. -/
def Recorded (h : History κ ω) (k : κ) : Prop :=
  ∃ covers ifAbsent ifPresent ops,
    (Call.delete k covers ifAbsent ifPresent, Reply.returned ops) ∈ h ∧
      (if ops.isSome then ifPresent else ifAbsent) = true

/-- The reply to a call is right after the history. -/
def Right (h : History κ ω) : Call κ ω → Reply ω → Prop
  | .insert k _, .start => busy h k = false
  | .delete k covers _ _, .returned ops => ops.getD [] = (owed h k).filter covers
  | _, _ => True

@[simp] theorem owed_concat (h : History κ ω) (k : κ) (e : Call κ ω × Reply ω) :
    owed (h ++ [e]) k = owe k (owed h k) e := by
  rw [owed, List.foldl_append]
  rfl

@[simp] theorem busy_concat (h : History κ ω) (k : κ) (e : Call κ ω × Reply ω) :
    busy (h ++ [e]) k = occupy k (busy h k) e := by
  rw [busy, List.foldl_append]
  rfl

/-! ## The invariant -/

/-- The state agrees with the history. -/
structure Inv (w : Waiting κ ω) (h : History κ ω) : Prop where
  owed : ∀ k, (w.lists.lookup k).getD [] = owed h k
  busy : ∀ k, busy h k = true → (w.lists.lookup k).isSome ∨ k ∈ w.finished
  recorded : ∀ k, Recorded h k ↔ k ∈ w.finished

variable {w} {h : History κ ω}

theorem inv_empty : Inv (empty : Waiting κ ω) [] where
  owed _ := rfl
  busy _ hbusy := absurd hbusy Bool.false_ne_true
  recorded k := by simp [Recorded, empty]

theorem insert_of_some {k : κ} {waiting : List ω} (h : w.lists.lookup k = some waiting)
    (ops : List ω) :
    w.insert k ops = ({ w with lists := w.lists.insert k (waiting ++ ops) }, .wait) := by
  rw [insert, h]

theorem insert_of_finished {k : κ} (h : w.lists.lookup k = none) (hfin : k ∈ w.finished)
    (ops : List ω) : w.insert k ops = (w, .finished) := by
  rw [insert, h]
  exact if_pos hfin

theorem insert_of_idle {k : κ} (h : w.lists.lookup k = none) (hfin : k ∉ w.finished)
    (ops : List ω) : w.insert k ops = ({ w with lists := w.lists.insert k ops }, .start) := by
  rw [insert, h]
  exact if_neg hfin

theorem delete_of_none {k : κ} (h : w.lists.lookup k = none) (covers : ω → Bool)
    (ifPresent : Bool) : w.delete k covers false ifPresent = (w, .returned none) := by
  rw [delete, h]
  rfl

theorem delete_of_some {k : κ} {waiting : List ω} (h : w.lists.lookup k = some waiting)
    (ifAbsent ifPresent : Bool) :
    w.delete k (fun _ => true) ifAbsent ifPresent =
      ({ lists := w.lists.erase k
         finished := if ifPresent then Insert.insert k w.finished else w.finished },
        .returned (some waiting)) := by
  rw [delete, h]
  simp

theorem delete_snd (w : Waiting κ ω) (k : κ) (covers : ω → Bool) (ifAbsent ifPresent : Bool) :
    (w.delete k covers ifAbsent ifPresent).2 =
      .returned ((w.lists.lookup k).map (List.filter covers)) := by
  rw [delete]
  cases w.lists.lookup k <;> rfl

theorem lookup_delete_of_ne {k k' : κ} (hne : k' ≠ k) (covers : ω → Bool)
    (ifAbsent ifPresent : Bool) :
    (w.delete k covers ifAbsent ifPresent).1.lists.lookup k' = w.lists.lookup k' := by
  rw [delete]
  cases w.lists.lookup k with
  | none => rfl
  | some waiting =>
    dsimp only
    split_ifs
    · exact AList.lookup_erase_ne hne
    · exact AList.lookup_insert_ne hne

/-- The operations that a report does not cover stay. -/
theorem getD_lookup_delete (w : Waiting κ ω) (k : κ) (covers : ω → Bool)
    (ifAbsent ifPresent : Bool) :
    ((w.delete k covers ifAbsent ifPresent).1.lists.lookup k).getD [] =
      ((w.lists.lookup k).getD []).filter fun op => !covers op := by
  rw [delete]
  cases hk : w.lists.lookup k with
  | none =>
    dsimp only
    rw [hk]
    rfl
  | some waiting =>
    dsimp only
    split_ifs with hempty
    · rw [AList.lookup_erase, Option.getD_some, List.isEmpty_iff.mp hempty]
      rfl
    · rw [AList.lookup_insert]
      rfl

theorem mem_finished_delete (w : Waiting κ ω) (k : κ) (covers : ω → Bool)
    (ifAbsent ifPresent : Bool) (k' : κ) :
    k' ∈ (w.delete k covers ifAbsent ifPresent).1.finished ↔ k' ∈ w.finished ∨
      k = k' ∧ (if (w.lists.lookup k).isSome then ifPresent else ifAbsent) = true := by
  rw [delete]
  cases w.lists.lookup k with
  | none => cases ifAbsent <;> simp [or_comm, eq_comm]
  | some waiting => cases ifPresent <;> simp [or_comm, eq_comm]

theorem insert_cases (w : Waiting κ ω) (k : κ) (ops : List ω) :
    (∃ waiting, w.lists.lookup k = some waiting ∧
        w.insert k ops = ({ w with lists := w.lists.insert k (waiting ++ ops) }, .wait)) ∨
      (w.lists.lookup k = none ∧ k ∈ w.finished ∧ w.insert k ops = (w, .finished)) ∨
      (w.lists.lookup k = none ∧ k ∉ w.finished ∧
        w.insert k ops = ({ w with lists := w.lists.insert k ops }, .start)) := by
  cases hk : w.lists.lookup k with
  | some waiting => exact Or.inl ⟨waiting, rfl, insert_of_some hk ops⟩
  | none =>
    by_cases hfin : k ∈ w.finished
    · exact Or.inr (Or.inl ⟨rfl, hfin, insert_of_finished hk hfin ops⟩)
    · exact Or.inr (Or.inr ⟨rfl, hfin, insert_of_idle hk hfin ops⟩)

omit [DecidableEq κ] in
theorem recorded_concat_insert (k' : κ) (ops : List ω) (r : Reply ω) (k : κ) :
    Recorded (h ++ [(.insert k' ops, r)]) k ↔ Recorded h k := by
  simp [Recorded]

omit [DecidableEq κ] in
theorem recorded_concat_delete (k' : κ) (covers : ω → Bool) (ifAbsent ifPresent : Bool)
    (ops : Option (List ω)) (k : κ) :
    Recorded (h ++ [(.delete k' covers ifAbsent ifPresent, .returned ops)]) k ↔
      Recorded h k ∨ k' = k ∧ (if ops.isSome then ifPresent else ifAbsent) = true := by
  constructor
  · rintro ⟨covers', ifAbsent', ifPresent', ops', hmem, hflag⟩
    rcases List.mem_append.mp hmem with hmem | hmem
    · exact Or.inl ⟨covers', ifAbsent', ifPresent', ops', hmem, hflag⟩
    · simp only [List.mem_singleton, Prod.mk.injEq, Call.delete.injEq, Reply.returned.injEq] at hmem
      obtain ⟨⟨rfl, rfl, rfl, rfl⟩, rfl⟩ := hmem
      exact Or.inr ⟨rfl, hflag⟩
  · rintro (⟨covers', ifAbsent', ifPresent', ops', hmem, hflag⟩ | ⟨rfl, hflag⟩)
    · exact ⟨covers', ifAbsent', ifPresent', ops', List.mem_append_left _ hmem, hflag⟩
    · exact ⟨covers, ifAbsent, ifPresent, ops, List.mem_append_right _ (List.mem_singleton_self _),
        hflag⟩

theorem Inv.insert (hinv : Inv w h) (k : κ) (ops : List ω) :
    Inv (w.insert k ops).1 (h ++ [(.insert k ops, (w.insert k ops).2)]) := by
  rcases insert_cases w k ops with ⟨waiting, hsome, heq⟩ | ⟨hnone, hfin, heq⟩ | ⟨hnone, hfin, heq⟩
    <;> rw [heq]
  · refine ⟨fun k' => ?_, fun k' hbusy => ?_, fun k' => ?_⟩
    · rw [owed_concat, ← hinv.owed]
      by_cases hk : k = k'
      · subst hk
        simp [owe, hsome]
      · simp [owe, hk, Ne.symm hk]
    · rw [busy_concat] at hbusy
      rcases hinv.busy k' hbusy with hold | hold
      · left
        by_cases hk : k' = k
        · rw [hk, AList.lookup_insert]
          rfl
        · rwa [AList.lookup_insert_ne hk]
      · exact Or.inr hold
    · rw [recorded_concat_insert, hinv.recorded]
  · refine ⟨fun k' => ?_, fun k' hbusy => ?_, fun k' => ?_⟩
    · rw [owed_concat, ← hinv.owed]
      rfl
    · rw [busy_concat] at hbusy
      exact hinv.busy k' hbusy
    · rw [recorded_concat_insert, hinv.recorded]
  · refine ⟨fun k' => ?_, fun k' hbusy => ?_, fun k' => ?_⟩
    · rw [owed_concat, ← hinv.owed]
      by_cases hk : k = k'
      · subst hk
        simp [owe, hnone]
      · simp [owe, hk, Ne.symm hk]
    · by_cases hk : k' = k
      · left
        rw [hk, AList.lookup_insert]
        rfl
      · rw [busy_concat] at hbusy
        have hold : Waiting.busy h k' = true := by simpa [occupy, Ne.symm hk] using hbusy
        rw [AList.lookup_insert_ne hk]
        exact hinv.busy k' hold
    · rw [recorded_concat_insert, hinv.recorded]

theorem Inv.delete (hinv : Inv w h) (k : κ) (covers : ω → Bool) (ifAbsent ifPresent : Bool) :
    Inv (w.delete k covers ifAbsent ifPresent).1
      (h ++ [(.delete k covers ifAbsent ifPresent,
        (w.delete k covers ifAbsent ifPresent).2)]) := by
  refine ⟨fun k' => ?_, fun k' hbusy => ?_, fun k' => ?_⟩
  · rw [owed_concat, ← hinv.owed]
    by_cases hk : k' = k
    · rw [hk, getD_lookup_delete, owe, if_pos rfl]
    · rw [lookup_delete_of_ne hk, owe, if_neg (Ne.symm hk)]
  · rw [busy_concat, delete_snd] at hbusy
    rw [mem_finished_delete]
    cases hlookup : w.lists.lookup k with
    | none =>
      have hold : Waiting.busy h k' = true := by
        rw [hlookup] at hbusy
        cases ifPresent <;> exact hbusy
      rcases hinv.busy k' hold with hsome | hfin
      · have hk : k' ≠ k := by
          rintro rfl
          rw [hlookup] at hsome
          cases hsome
        rw [lookup_delete_of_ne hk]
        exact Or.inl hsome
      · exact Or.inr (Or.inl hfin)
    | some waiting =>
      rw [hlookup] at hbusy
      by_cases hk : k' = k
      · subst hk
        cases ifPresent with
        | true => exact Or.inr (Or.inr ⟨rfl, rfl⟩)
        | false => simp [occupy] at hbusy
      · have hold : Waiting.busy h k' = true := by
          cases ifPresent with
          | true => exact hbusy
          | false => simpa [occupy, Ne.symm hk] using hbusy
        rw [lookup_delete_of_ne hk]
        exact (hinv.busy k' hold).imp_right Or.inl
  · rw [delete_snd, recorded_concat_delete, hinv.recorded, mem_finished_delete, Option.isSome_map]

/-- A call keeps the state and the history in agreement. -/
theorem Inv.step (hinv : Inv w h) (c : Call κ ω) :
    Inv (w.serve c).1 (h ++ [(c, (w.serve c).2)]) := by
  cases c with
  | insert k ops => exact hinv.insert k ops
  | delete k covers ifAbsent ifPresent => exact hinv.delete k covers ifAbsent ifPresent

/-- Every reply is right. -/
theorem Inv.right (hinv : Inv w h) (c : Call κ ω) : Right h c (w.serve c).2 := by
  cases c with
  | insert k ops =>
    rw [serve]
    rcases insert_cases w k ops with ⟨_, _, heq⟩ | ⟨_, _, heq⟩ | ⟨hnone, hfin, heq⟩ <;> rw [heq]
    · exact trivial
    · exact trivial
    · refine Bool.eq_false_iff.mpr fun hbusy => ?_
      rcases hinv.busy k hbusy with hsome | hmem
      · rw [hnone] at hsome
        cases hsome
      · exact hfin hmem
  | delete k covers ifAbsent ifPresent =>
    rw [serve, delete_snd, Right, ← hinv.owed]
    cases w.lists.lookup k <;> rfl

theorem Inv.conserved (hinv : Inv w h) {k : κ} (hcons : Conserved h k) (c : Call κ ω) :
    Conserved (h ++ [(c, (w.serve c).2)]) k := by
  have hperm : (h.flatMap (registers k)).Perm (h.flatMap (returns k) ++ Waiting.owed h k) := hcons
  rw [Conserved, List.flatMap_append, List.flatMap_append, List.flatMap_singleton,
    List.flatMap_singleton, owed_concat]
  cases c with
  | insert k' ops =>
    rw [Waiting.serve]
    rcases insert_cases w k' ops with ⟨_, _, heq⟩ | ⟨_, _, heq⟩ | ⟨_, _, heq⟩ <;> rw [heq]
    · by_cases hk : k' = k
      · simpa [registers, returns, owe, hk] using hperm.append_right ops
      · simpa [registers, returns, owe, hk] using hperm
    · simpa [registers, returns, owe] using hperm
    · by_cases hk : k' = k
      · simpa [registers, returns, owe, hk] using hperm.append_right ops
      · simpa [registers, returns, owe, hk] using hperm
  | delete k' covers ifAbsent ifPresent =>
    have hright := hinv.right (.delete k' covers ifAbsent ifPresent)
    obtain ⟨ops, hreply⟩ : ∃ ops,
        (w.serve (.delete k' covers ifAbsent ifPresent)).2 = .returned ops :=
      ⟨_, delete_snd w k' covers ifAbsent ifPresent⟩
    rw [hreply] at hright ⊢
    by_cases hk : k' = k
    · subst hk
      have hright' : ops.getD [] = (Waiting.owed h k').filter covers := hright
      simp only [registers, returns, owe, if_true, hright', List.append_nil, List.append_assoc]
      exact hperm.trans ((List.filter_append_perm covers (Waiting.owed h k')).symm.append_left _)
    · simpa [registers, returns, owe, hk] using hperm

/-! ## Reports that cover everything -/

/-- Nothing waits for a key that is finished. -/
def Exclusive (w : Waiting κ ω) : Prop := ∀ k ∈ w.finished, w.lists.lookup k = none

theorem Exclusive.insert (hex : Exclusive w) (k : κ) (ops : List ω) :
    Exclusive (w.insert k ops).1 := by
  rcases insert_cases w k ops with ⟨waiting, hsome, heq⟩ | ⟨_, _, heq⟩ | ⟨_, hfin, heq⟩ <;> rw [heq]
  · intro k' hk'
    have hold := hex k' hk'
    have hne : k' ≠ k := by
      rintro rfl
      rw [hsome] at hold
      cases hold
    rwa [AList.lookup_insert_ne hne]
  · exact hex
  · intro k' hk'
    have hne : k' ≠ k := fun heq => hfin (heq ▸ hk')
    rw [AList.lookup_insert_ne hne]
    exact hex k' hk'

theorem Exclusive.delete (hex : Exclusive w) (k : κ) {covers : ω → Bool}
    (hall : ∀ op, covers op = true) (ifAbsent ifPresent : Bool) :
    Exclusive (w.delete k covers ifAbsent ifPresent).1 := by
  intro k' hk'
  by_cases heq : k' = k
  · rw [heq, Waiting.delete]
    cases hk : w.lists.lookup k with
    | none => exact hk
    | some waiting =>
      have hrest : (waiting.filter fun op => !covers op) = [] :=
        List.filter_eq_nil_iff.mpr fun op _ => by simp [hall op]
      simp only [hrest, List.isEmpty_nil, if_true]
      exact AList.lookup_erase k w.lists
  · rw [lookup_delete_of_ne heq]
    rw [mem_finished_delete] at hk'
    exact hex k' (hk'.resolve_right fun h => heq h.1.symm)

end Waiting

end MemEC.Lib
