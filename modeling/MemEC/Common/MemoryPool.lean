import MemEC.Lib.Ring
import MemEC.Lib.Run

/-!
# The memory pool

The objects of a pool are made once and handed out again and again. The ring
`pool` holds those that are not in use: they are read at `readIndex`, and what
comes back is written at `writeIndex`, whatever stood there before.

An object is known by its place in `poolBackup`. A call that has to wait is tried
again later, so for the pool it is the same as one that gives up.
-/

namespace MemEC.Common

open MemEC.Lib
open scoped List

/-- `MemoryPool`. -/
structure MemoryPool where
  readIndex : ℕ
  writeIndex : ℕ
  count : ℕ
  capacity : ℕ
  pool : ℕ → ℕ

namespace MemoryPool

/-- `init`. -/
def init (capacity : UInt64) : MemoryPool := ⟨0, 0, 0, capacity.toNat, id⟩

variable (p : MemoryPool)

def nextVal (x : ℕ) : ℕ := if p.capacity ≤ x + 1 then 0 else x + 1

/-- One object is handed out. -/
def take : MemoryPool × ℕ :=
  ({ p with
      readIndex := p.nextVal p.readIndex
      count := (p.count + 1) % 2 ^ 64 }, p.pool p.readIndex)

/-- The loop of `malloc`. -/
def takeAll (p : MemoryPool) : ℕ → MemoryPool × List ℕ
  | 0 => (p, [])
  | n + 1 =>
    let (p, x) := p.take
    let (p, xs) := p.takeAll n
    (p, x :: xs)

/-- `malloc`: the objects that are handed out, or `none` if the pool does not have `count` of
them. -/
def malloc (buffer : Bool) (count : UInt64) : Option (MemoryPool × List ℕ) :=
  if p.capacity < (p.count + count.toNat) % 2 ^ 64 then none
  else if buffer && count != 0 then some (p.takeAll count.toNat)
  else
    let (p, x) := p.take
    some (p, [x])

/-- `free`, with `none` for a failed assertion. -/
def free (x : ℕ) : Option MemoryPool :=
  if p.count = 0 then none
  else some { p with
    pool := Function.update p.pool p.writeIndex x
    writeIndex := p.nextVal p.writeIndex
    count := p.count - 1 }

/-- The ring holds these objects. -/
def Holds (xs : List ℕ) : Prop := RingHolds p.capacity p.pool p.readIndex p.writeIndex xs

variable {p} {p' : MemoryPool} {x : ℕ} {xs ys : List ℕ}

theorem takeAll_succ (p : MemoryPool) (n : ℕ) : p.takeAll (n + 1) =
    ((p.take.1.takeAll n).1, p.take.2 :: (p.take.1.takeAll n).2) := rfl

theorem take_of_holds (h : p.Holds (x :: xs)) : p.take.2 = x ∧ p.take.1.Holds xs := h.pop

/-- The loop hands out the objects that come first in the ring. -/
theorem takeAll_of_holds (h : p.Holds (xs ++ ys)) (hcount : p.count + xs.length < 2 ^ 64) :
    (p.takeAll xs.length).2 = xs ∧ (p.takeAll xs.length).1.Holds ys ∧
      (p.takeAll xs.length).1.count = p.count + xs.length ∧
      (p.takeAll xs.length).1.capacity = p.capacity := by
  induction xs generalizing p with
  | nil => exact ⟨rfl, h, rfl, rfl⟩
  | cons x xs ih =>
    obtain ⟨hx, hrest⟩ := take_of_holds h
    rw [List.length_cons] at hcount
    have hone : p.take.1.count = p.count + 1 := Nat.mod_eq_of_lt (by omega)
    obtain ⟨hxs, hys, hc, hcap⟩ := ih hrest (by omega)
    refine ⟨?_, hys, ?_, hcap⟩
    · rw [List.length_cons, takeAll_succ, hx, hxs]
    · rw [List.length_cons, takeAll_succ, hc, hone]
      omega

theorem length_takeAll (p : MemoryPool) (n : ℕ) : (p.takeAll n).2.length = n := by
  induction n generalizing p with
  | zero => rfl
  | succ n ih => rw [takeAll_succ, List.length_cons, ih]

/-- What is returned comes last in the ring. -/
theorem free_of_holds (h : p.Holds xs) (hroom : xs.length < p.capacity) (hcount : p.count ≠ 0) :
    ∃ p', p.free x = some p' ∧ p'.Holds (xs ++ [x]) ∧ p'.count = p.count - 1 ∧
      p'.capacity = p.capacity :=
  ⟨_, if_neg hcount, h.push hroom x, rfl, rfl⟩

end MemoryPool

/-! ## Runs -/

/-- A pool with the objects that are in use. -/
structure PoolState where
  pool : MemoryPool
  inUse : List ℕ

/-- What is done with a pool. -/
inductive PoolOp
  | malloc (buffer : Bool) (count : UInt64)
  | free (x : ℕ)
  | freeAll (xs : List ℕ)

namespace PoolState

def init (capacity : UInt64) : PoolState := ⟨.init capacity, []⟩

variable (s : PoolState)

/-- An object comes back from whom it was handed out to. -/
def free (x : ℕ) : Option PoolState :=
  if x ∈ s.inUse then (s.pool.free x).map fun pool => ⟨pool, s.inUse.erase x⟩ else none

/-- There is a next state when what is returned was handed out before. -/
def step : PoolOp → Option PoolState
  | .malloc buffer count =>
    match s.pool.malloc buffer count with
    | none => some s
    | some (pool, xs) => some ⟨pool, s.inUse ++ xs⟩
  | .free x => s.free x
  | .freeAll xs => xs.foldlM free s

/-- Every object is in use or in the ring, and once only, and `count` is the number of those in
use. -/
structure Sound (capacity : UInt64) (s : PoolState) : Prop where
  capacity_eq : s.pool.capacity = capacity.toNat
  count_eq : s.pool.count = s.inUse.length
  ring : ∃ xs, s.pool.Holds xs ∧ (s.inUse ++ xs).Perm (List.range capacity.toNat)

/-- A call of `malloc` that does not wait finds as many objects in the ring as it hands out. -/
def Covered : PoolOp → Prop
  | .malloc buffer count =>
    s.pool.capacity < (s.pool.count + count.toNat) % 2 ^ 64 ∨
      if buffer && count != 0 then s.pool.count + count.toNat < 2 ^ 64
      else s.pool.count < s.pool.capacity
  | _ => True

variable {s} {s' : PoolState} {capacity : UInt64} {x : ℕ} {op : PoolOp}

theorem sound_init (capacity : UInt64) : (init capacity).Sound capacity where
  capacity_eq := rfl
  count_eq := rfl
  ring := by
    refine ⟨(List.range capacity.toNat).map id, ringHolds_range _ _, ?_⟩
    rw [List.map_id]
    rfl

/-- There are never more objects in use than there are. -/
theorem Sound.length_le (h : s.Sound capacity) : s.inUse.length ≤ capacity.toNat := by
  obtain ⟨xs, -, hperm⟩ := h.ring
  have hlength := hperm.length_eq
  rw [List.length_append, List.length_range] at hlength
  omega

/-- Objects that are at the front of the ring are handed out. -/
theorem Sound.handOut (h : s.Sound capacity) {n : ℕ} (hn : s.pool.count + n ≤ s.pool.capacity) :
    (⟨(s.pool.takeAll n).1, s.inUse ++ (s.pool.takeAll n).2⟩ : PoolState).Sound capacity := by
  obtain ⟨zs, hzs, hperm⟩ := h.ring
  have hlength := hperm.length_eq
  rw [List.length_append, List.length_range, ← h.count_eq, ← h.capacity_eq] at hlength
  have hfront : (zs.take n).length = n := by
    rw [List.length_take]
    omega
  have hcap := capacity.toNat_lt
  rw [← h.capacity_eq] at hcap
  rw [← List.take_append_drop n zs] at hzs
  obtain ⟨hxs, hys, hcount, hsame⟩ := MemoryPool.takeAll_of_holds hzs (by omega)
  rw [hfront] at hxs hys hcount hsame
  refine ⟨hsame.trans h.capacity_eq, ?_, zs.drop n, hys, ?_⟩
  · rw [List.length_append, hcount, hxs, hfront, h.count_eq]
  · rwa [hxs, List.append_assoc, List.take_append_drop]

/-- An object in use is returned, and the assertion holds. -/
theorem Sound.free (h : s.Sound capacity) (hx : x ∈ s.inUse) :
    ∃ s', s.free x = some s' ∧ s'.Sound capacity := by
  obtain ⟨xs, hxs, hperm⟩ := h.ring
  have hpos := List.length_pos_of_mem hx
  have hlength := hperm.length_eq
  rw [List.length_append, List.length_range, ← h.capacity_eq] at hlength
  obtain ⟨p', hp', hring, hcount, hcap⟩ :=
    MemoryPool.free_of_holds (x := x) hxs (by omega) (by rw [h.count_eq]; omega)
  refine ⟨⟨p', s.inUse.erase x⟩, ?_, hcap.trans h.capacity_eq, ?_, xs ++ [x], hring, ?_⟩
  · rw [PoolState.free, if_pos hx, hp']
    rfl
  · rw [hcount, h.count_eq, List.length_erase_of_mem hx]
  · calc s.inUse.erase x ++ (xs ++ [x])
        = s.inUse.erase x ++ xs ++ [x] := (List.append_assoc _ _ _).symm
      _ ~ x :: (s.inUse.erase x ++ xs) := List.perm_append_singleton _ _
      _ ~ s.inUse ++ xs := ((List.perm_cons_erase hx).append_right xs).symm
      _ ~ List.range capacity.toNat := hperm

theorem Sound.free_of_some (h : s.Sound capacity) (hs' : s.free x = some s') :
    s'.Sound capacity := by
  have hx : x ∈ s.inUse := by
    by_contra hx
    rw [PoolState.free, if_neg hx] at hs'
    cases hs'
  obtain ⟨s₁, hs₁, h₁⟩ := h.free hx
  rw [hs₁] at hs'
  exact Option.some.inj hs' ▸ h₁

theorem Sound.freeAll (h : s.Sound capacity) {xs : List ℕ}
    (hs' : xs.foldlM PoolState.free s = some s') : s'.Sound capacity := by
  induction xs generalizing s with
  | nil =>
    obtain rfl : s = s' := Option.some.inj hs'
    exact h
  | cons x xs ih =>
    rw [List.foldlM_cons] at hs'
    obtain ⟨s₁, hs₁, hrest⟩ := Option.bind_eq_some_iff.mp hs'
    exact ih (h.free_of_some hs₁) hrest

theorem take_eq_takeAll (p : MemoryPool) : (p.take.1, [p.take.2]) = p.takeAll 1 := rfl

/-- What a call of `malloc` comes to. -/
theorem step_malloc (s : PoolState) (buffer : Bool) (count : UInt64) :
    (s.pool.capacity < (s.pool.count + count.toNat) % 2 ^ 64 ∧
      s.step (.malloc buffer count) = some s) ∨
    ((s.pool.count + count.toNat) % 2 ^ 64 ≤ s.pool.capacity ∧
      s.step (.malloc buffer count) =
        some ⟨(s.pool.takeAll (if buffer && count != 0 then count.toNat else 1)).1,
          s.inUse ++ (s.pool.takeAll (if buffer && count != 0 then count.toNat else 1)).2⟩) := by
  rcases Nat.lt_or_ge s.pool.capacity ((s.pool.count + count.toNat) % 2 ^ 64) with hlt | hle
  · left
    refine ⟨hlt, ?_⟩
    simp only [step, MemoryPool.malloc, if_pos hlt]
  · right
    refine ⟨hle, ?_⟩
    simp only [step, MemoryPool.malloc, if_neg hle.not_gt]
    split_ifs
    · rfl
    · rw [← take_eq_takeAll]

theorem Sound.step (h : s.Sound capacity) (hop : s.Covered op) (hs' : s.step op = some s') :
    s'.Sound capacity := by
  cases op with
  | malloc buffer count =>
    rcases step_malloc s buffer count with ⟨-, heq⟩ | ⟨hle, heq⟩
    · rw [heq] at hs'
      exact Option.some.inj hs' ▸ h
    · rw [heq] at hs'
      obtain rfl := Option.some.inj hs'
      refine h.handOut ?_
      have hroom := hop.resolve_left hle.not_gt
      split_ifs at hroom ⊢
      · rwa [Nat.mod_eq_of_lt hroom] at hle
      · exact hroom
  | free x => exact h.free_of_some hs'
  | freeAll xs => exact h.freeAll hs'

/-- Without enough objects in the ring, more objects are in use than there are. -/
theorem Sound.not_step (h : s.Sound capacity) (hop : ¬ s.Covered op) :
    ∃ s', s.step op = some s' ∧ ¬ s'.Sound capacity := by
  cases op with
  | malloc buffer count =>
    obtain ⟨hgranted, hroom⟩ := not_or.mp hop
    rcases step_malloc s buffer count with ⟨hlt, -⟩ | ⟨-, heq⟩
    · exact absurd hlt hgranted
    · refine ⟨_, heq, fun hsound => ?_⟩
      have hle := hsound.length_le
      have hcap := capacity.toNat_lt
      have hcapacity := h.capacity_eq
      rw [List.length_append, MemoryPool.length_takeAll, ← h.count_eq] at hle
      split_ifs at hroom hle
      · omega
      · omega
  | free x => exact absurd trivial hop
  | freeAll xs => exact absurd trivial hop

/-- The pool is sound in every state that a run reaches exactly if no call of `malloc` gets past the
check without enough objects. -/
theorem sound_iff (capacity : UInt64) (ops : List PoolOp) :
    (∀ n ≤ ops.length, ∀ s, tryRun step (init capacity) (ops.take n) = some s →
      s.Sound capacity) ↔
    ∀ n op s, ops[n]? = some op → tryRun step (init capacity) (ops.take n) = some s →
      s.Covered op := by
  let Inv : List PoolOp → PoolState → Prop := fun _ s => s.Sound capacity
  have hstep : ∀ past s op s', tryRun step (init capacity) past = some s → Inv past s →
      s.Covered op → s.step op = some s' → Inv (past ++ [op]) s' :=
    fun _ _ _ _ _ h hop hs' => h.step hop hs'
  have hbad : ∀ past s op, Inv past s → ¬ s.Covered op →
      ∃ s', s.step op = some s' ∧ ¬ Inv (past ++ [op]) s' := fun _ _ _ h hop => h.not_step hop
  exact tryRun_reached_iff_allowed (sound_init capacity) (fun _ _ h => h) hstep hbad ops

/-- A pool of one object hands it out, and then hands out no object to a buffer. -/
def mallocNone : List PoolOp := [.malloc false 1, .malloc true 0]

/-- The object is in use twice. -/
theorem not_sound_of_mallocNone : ¬∀ (capacity : UInt64) (ops : List PoolOp), ∀ n ≤ ops.length,
    ∀ s, tryRun step (init capacity) (ops.take n) = some s → s.Sound capacity := by
  intro h
  obtain ⟨s, hs, htwice⟩ : ∃ s, tryRun step (init 1) mallocNone = some s ∧ s.inUse = [0, 0] :=
    ⟨_, rfl, by decide⟩
  have hle := (h 1 mallocNone 2 le_rfl s hs).length_le
  rw [htwice] at hle
  exact absurd hle (by decide)

end PoolState

end MemEC.Common
