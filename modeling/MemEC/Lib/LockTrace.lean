import Mathlib.Data.Finset.Sort
import MemEC.Lib.Run

/-!
# The locks that a thread takes

What a thread does with its locks is a list of actions. Taking a lock that it
holds blocks it for ever, and giving back one that it does not hold is undefined:
there the list has no result.
-/

namespace MemEC.Lib

inductive MutexAction (L : Type)
  | lock (l : L)
  | unlock (l : L)
  deriving DecidableEq

variable {L : Type} [DecidableEq L]

namespace MutexAction

/-- The locks that are held after an action. -/
def step (held : Finset L) : MutexAction L → Option (Finset L)
  | .lock l => if l ∈ held then none else some (insert l held)
  | .unlock l => if l ∈ held then some (held.erase l) else none

end MutexAction

/-- The locks that are held after the actions. -/
def heldAfter (held : Finset L) (actions : List (MutexAction L)) : Option (Finset L) :=
  tryRun MutexAction.step held actions

/-- Exactly the locks that were taken are given back. -/
def LocksBalanced (actions : List (MutexAction L)) : Prop := heldAfter ∅ actions = some ∅

instance (actions : List (MutexAction L)) : Decidable (LocksBalanced actions) :=
  inferInstanceAs (Decidable (_ = _))

variable {held : Finset L}

@[simp] theorem heldAfter_nil : heldAfter held [] = some held := rfl

theorem heldAfter_cons (a : MutexAction L) (actions : List (MutexAction L)) :
    heldAfter held (a :: actions) =
      (MutexAction.step held a).bind fun h => heldAfter h actions :=
  tryRun_cons a actions

theorem heldAfter_lock {l : L} (h : l ∉ held) (actions : List (MutexAction L)) :
    heldAfter held (.lock l :: actions) = heldAfter (insert l held) actions := by
  rw [heldAfter_cons, MutexAction.step, if_neg h, Option.bind_some]

theorem heldAfter_unlock {l : L} (h : l ∈ held) (actions : List (MutexAction L)) :
    heldAfter held (.unlock l :: actions) = heldAfter (held.erase l) actions := by
  rw [heldAfter_cons, MutexAction.step, if_pos h, Option.bind_some]

theorem heldAfter_unlock_of_notMem {l : L} (h : l ∉ held) (actions : List (MutexAction L)) :
    heldAfter held (.unlock l :: actions) = none := by
  rw [heldAfter_cons, MutexAction.step, if_neg h, Option.bind_none]

/-- A lock that is taken and given back at once. -/
theorem heldAfter_guard {l : L} (h : l ∉ held) (actions : List (MutexAction L)) :
    heldAfter held (.lock l :: .unlock l :: actions) = heldAfter held actions := by
  rw [heldAfter_lock h, heldAfter_unlock (Finset.mem_insert_self l held), Finset.erase_insert h]

/-- Locks that are each taken and given back at once. -/
def guards (ls : List L) : List (MutexAction L) := ls.flatMap fun l => [.lock l, .unlock l]

theorem heldAfter_guards (ls : List L) (h : ∀ l ∈ ls, l ∉ held) (actions : List (MutexAction L)) :
    heldAfter held (guards ls ++ actions) = heldAfter held actions := by
  induction ls with
  | nil => rfl
  | cons l ls ih =>
    rw [guards, List.flatMap_cons, List.append_assoc]
    change heldAfter held (.lock l :: .unlock l :: (guards ls ++ actions)) = _
    rw [heldAfter_guard (h l List.mem_cons_self)]
    exact ih fun l' hl' => h l' (List.mem_cons_of_mem _ hl')

theorem heldAfter_append (as bs : List (MutexAction L)) :
    heldAfter held (as ++ bs) = (heldAfter held as).bind fun h => heldAfter h bs :=
  tryRun_append as bs

theorem LocksBalanced.append {as bs : List (MutexAction L)} (ha : LocksBalanced as) (hb : LocksBalanced bs) :
    LocksBalanced (as ++ bs) := by
  rw [LocksBalanced, heldAfter_append, ha]
  exact hb

end MemEC.Lib
