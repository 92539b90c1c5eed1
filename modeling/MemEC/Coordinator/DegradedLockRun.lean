import Mathlib.Tactic
import MemEC.Coordinator.DegradedLockSpec

/-!
# Runs of degraded locking

Requests lock stripes and expand their locks, in any order. What is promised
of the locks holds as long as the request that creates a lock names every lost
chunk and no later request names another one.
-/

namespace MemEC.Coordinator

open MemEC.Common MemEC.Lib DegradedLock

/-- What a request looks like that a client sends: the chunks it names are lost, each once, and it
redirects them to different chunks that survive. At most half of the chunks are lost. -/
structure LockRequest.WellFormed (r : LockRequest) (chunkCount : ℕ) : Prop where
  surviving_nodup : r.survivingChunkIds.Nodup
  surviving_lt : ∀ c ∈ r.survivingChunkIds, c < chunkCount
  enough : chunkCount - r.survivingChunkIds.length ≤ r.survivingChunkIds.length
  original_nodup : (r.entries.map chunk).Nodup
  original_lt : ∀ e ∈ r.entries, chunk e < chunkCount
  lost : ∀ e ∈ r.entries, chunk e ∉ r.survivingChunkIds
  reconstructed_nodup : (r.entries.map fun e => e.reconstructed.2).Nodup
  survives : ∀ e ∈ r.entries, e.reconstructed.2 ∈ r.survivingChunkIds

/-- Every chunk survives or is named. -/
def LockRequest.NamesAllLost (r : LockRequest) (chunkCount : ℕ) : Prop :=
  ∀ c < chunkCount, c ∈ r.survivingChunkIds ∨ c ∈ r.entries.map chunk

inductive LockOp where
  | insert (r : LockRequest)
  | expand (r : LockRequest)
  deriving DecidableEq, Repr

def LockOp.request : LockOp → LockRequest
  | .insert r => r
  | .expand r => r

namespace DegradedLocks

/-- One request at the table of the locks. -/
def step (chunkCount : ℕ) (t : DegradedLocks) : LockOp → Option DegradedLocks
  | .insert r => (t.insertDegradedLock r chunkCount).map Prod.fst
  | .expand r => (t.expandDegradedLock r chunkCount).map Prod.fst

/-- The table after the requests `ops`. -/
def after (chunkCount : ℕ) (ops : List LockOp) : Option DegradedLocks :=
  tryRun (step chunkCount) ∅ ops

/-- A request that creates a lock names all lost chunks, of which there is one at least; a request
that expands a lock names no chunk that is not in the lock. -/
def Covered (chunkCount : ℕ) (t : DegradedLocks) : LockOp → Prop
  | .insert r => t.lookup r.stripe = none → r.entries ≠ [] ∧ r.NamesAllLost chunkCount
  | .expand r => ∀ lock es, t.lookup r.stripe = some lock → lock.Holds es →
      ∀ e' ∈ r.entries, ∃ e ∈ es, e.original = e'.original

/-- The entry came with a request that locked the stripe, and its lost chunk was redirected to a
chunk that survived then. -/
def Added (chunkCount : ℕ) (ops : List LockOp) (stripe : ListStripe) (e : LockEntry) : Prop :=
  ∃ n r t, ops[n]? = some (.insert r) ∧ after chunkCount (ops.take n) = some t ∧
    r.stripe = stripe ∧ t.lookup stripe = none ∧ e ∈ r.entries ∧
    e.reconstructed.2 ∈ r.survivingChunkIds

/-- What is promised of a lock with the entries `es`. -/
structure Sound (chunkCount : ℕ) (ops : List LockOp) (stripe : ListStripe) (lock : DegradedLock)
    (es : List LockEntry) : Prop where
  holds : lock.Holds es
  sorted : es.Pairwise fun a b => chunk a < chunk b
  redirected : es.Pairwise fun a b => a.reconstructed.2 ≠ b.reconstructed.2
  added : ∀ e ∈ es, Added chunkCount ops stripe e
  ne_nil : es ≠ []

variable {chunkCount : ℕ} {ops : List LockOp} {stripe : ListStripe} {lock : DegradedLock}
  {es : List LockEntry} {t t' : DegradedLocks} {r : LockRequest} {op : LockOp}

/-- A request that names all lost chunks accounts for all chunks. -/
theorem length_of_namesAllLost (h : r.WellFormed chunkCount) (hall : r.NamesAllLost chunkCount) :
    r.survivingChunkIds.length + r.entries.length = chunkCount := by
  have hdisjoint : r.survivingChunkIds.Disjoint (r.entries.map chunk) := by
    intro c hc hc'
    obtain ⟨e, he, rfl⟩ := List.mem_map.mp hc'
    exact h.lost e he hc
  have hnodup : (r.survivingChunkIds ++ r.entries.map chunk).Nodup :=
    h.surviving_nodup.append h.original_nodup hdisjoint
  have hmem : ∀ c, c ∈ r.survivingChunkIds ++ r.entries.map chunk ↔ c ∈ List.range chunkCount := by
    intro c
    rw [List.mem_append, List.mem_range]
    constructor
    · rintro (hc | hc)
      · exact h.surviving_lt c hc
      · obtain ⟨e, he, rfl⟩ := List.mem_map.mp hc
        exact h.original_lt e he
    · exact hall c
  have hperm := (List.perm_ext_iff_of_nodup hnodup List.nodup_range).mpr hmem
  simpa using hperm.length_eq

/-- The lock that a covering request creates. -/
theorem insertDegradedLock_of_namesAllLost (hcount : chunkCount < 2 ^ 32)
    (h : r.WellFormed chunkCount) (hne : r.entries ≠ []) (hall : r.NamesAllLost chunkCount)
    (hnone : t.lookup r.stripe = none) :
    ∃ lock es, t.insertDegradedLock r chunkCount = some (t.insert r.stripe lock, true) ∧
      lock.Holds es ∧ es.Perm r.entries ∧ es.Pairwise fun a b => chunk a ≤ chunk b := by
  have hpos : r.entries.length ≠ 0 := (List.length_pos_iff.mpr hne).ne'
  have hnew : (DegradedLock.new r.original r.reconstructed r.entries.length
      r.ongoingAtChunk).Holds r.entries := by
    simp only [DegradedLock.new, DegradedLock.set, if_neg hpos]
    exact ⟨rfl, rfl, rfl⟩
  obtain ⟨lock, es, hdup, hholds, hperm, hsorted⟩ :=
    hnew.dup hne hcount (length_of_namesAllLost h hall)
  refine ⟨lock, es, ?_, hholds, hperm, hsorted⟩
  simp only [insertDegradedLock, hnone, hdup]
  rfl

theorem Added.concat {e : LockEntry} (h : Added chunkCount ops stripe e) (op : LockOp) :
    Added chunkCount (ops ++ [op]) stripe e := by
  obtain ⟨n, r, t, hop, hafter, hrest⟩ := h
  have hn : n < ops.length := (List.getElem?_eq_some_iff.mp hop).1
  refine ⟨n, r, t, ?_, ?_, hrest⟩
  · rwa [List.getElem?_append_left hn]
  · rwa [List.take_append_of_le_length hn.le]

theorem Sound.concat (h : Sound chunkCount ops stripe lock es) (op : LockOp) :
    Sound chunkCount (ops ++ [op]) stripe lock es :=
  { h with added := fun e he => (h.added e he).concat op }

/-- Every lock of the table is sound. -/
def Inv (chunkCount : ℕ) (ops : List LockOp) (t : DegradedLocks) : Prop :=
  ∀ stripe lock, t.lookup stripe = some lock → ∃ es, Sound chunkCount ops stripe lock es

/-- A covered request succeeds, keeps all locks sound and leaves the locks alone that exist. -/
theorem Inv.step (hcount : chunkCount < 2 ^ 32) (hafter : after chunkCount ops = some t)
    (h : Inv chunkCount ops t) (hwf : op.request.WellFormed chunkCount)
    (hcovered : Covered chunkCount t op) :
    ∃ t', step chunkCount t op = some t' ∧ Inv chunkCount (ops ++ [op]) t' ∧
      ∀ stripe lock, t.lookup stripe = some lock → t'.lookup stripe = some lock := by
  have hkeep : Inv chunkCount (ops ++ [op]) t := fun stripe lock hlock => by
    obtain ⟨es, hes⟩ := h stripe lock hlock
    exact ⟨es, hes.concat op⟩
  cases op with
  | insert r =>
    have hwf : r.WellFormed chunkCount := hwf
    cases hfind : t.lookup r.stripe with
    | some lock =>
      refine ⟨t, ?_, hkeep, fun _ _ hlock => hlock⟩
      simp [DegradedLocks.step, insertDegradedLock, hfind]
    | none =>
      obtain ⟨hne, hall⟩ := hcovered hfind
      obtain ⟨lock, es, hinsert, hholds, hperm, hsorted⟩ :=
        insertDegradedLock_of_namesAllLost hcount hwf hne hall hfind
      have hsound : Sound chunkCount (ops ++ [.insert r]) r.stripe lock es := by
        constructor
        · exact hholds
        · have hnodup : (es.map chunk).Nodup := (hperm.map chunk).nodup_iff.mpr hwf.original_nodup
          exact (hsorted.and (List.pairwise_map.mp hnodup)).imp fun hab =>
            lt_of_le_of_ne hab.1 hab.2
        · have hnodup : (es.map fun e => e.reconstructed.2).Nodup :=
            (hperm.map _).nodup_iff.mpr hwf.reconstructed_nodup
          exact List.pairwise_map.mp hnodup
        · intro e he
          have he' := hperm.mem_iff.mp he
          refine ⟨ops.length, r, t, by simp, by simpa using hafter, rfl, hfind, he', ?_⟩
          exact hwf.survives e he'
        · rintro rfl
          exact hne hperm.symm.eq_nil
      refine ⟨t.insert r.stripe lock, ?_, ?_, ?_⟩
      · simp [DegradedLocks.step, hinsert]
      · intro stripe lock' hlock'
        by_cases hs : stripe = r.stripe
        · subst hs
          rw [AList.lookup_insert] at hlock'
          obtain rfl := Option.some.inj hlock'
          exact ⟨es, hsound⟩
        · rw [AList.lookup_insert_ne hs] at hlock'
          exact hkeep stripe lock' hlock'
      · intro stripe lock' hlock'
        have hs : stripe ≠ r.stripe := by
          rintro rfl
          exact absurd (hfind.symm.trans hlock') (by simp)
        rwa [AList.lookup_insert_ne hs]
  | expand r =>
    cases hfind : t.lookup r.stripe with
    | none =>
      refine ⟨t, ?_, hkeep, fun _ _ hlock => hlock⟩
      simp [DegradedLocks.step, expandDegradedLock, hfind]
    | some lock =>
      obtain ⟨es, hes⟩ := h r.stripe lock hfind
      have hexpand := hes.holds.expand hes.ne_nil (hcovered lock es hfind hes.holds) chunkCount
      have hsame : ∀ stripe, (t.insert r.stripe lock).lookup stripe = t.lookup stripe := by
        intro stripe
        by_cases hs : stripe = r.stripe
        · subst hs
          rw [AList.lookup_insert, hfind]
        · exact AList.lookup_insert_ne hs
      refine ⟨t.insert r.stripe lock, ?_, ?_, ?_⟩
      · simp [DegradedLocks.step, expandDegradedLock, hfind, hexpand]
      · intro stripe lock' hlock'
        rw [hsame] at hlock'
        exact hkeep stripe lock' hlock'
      · intro stripe lock' hlock'
        rwa [hsame]

/-- No run changes a lock that it has created. -/
def Stable (chunkCount : ℕ) (ops : List LockOp) (t : DegradedLocks) : Prop :=
  ∀ n t₀ stripe lock, after chunkCount (ops.take n) = some t₀ → t₀.lookup stripe = some lock →
    t.lookup stripe = some lock

theorem Stable.concat (h : Stable chunkCount ops t) (hafter : after chunkCount ops = some t)
    (hstep : step chunkCount t op = some t')
    (hkeep : ∀ stripe lock, t.lookup stripe = some lock → t'.lookup stripe = some lock) :
    Stable chunkCount (ops ++ [op]) t' := by
  intro n t₀ stripe lock ht₀ hlock
  by_cases hn : n ≤ ops.length
  · rw [List.take_append_of_le_length hn] at ht₀
    exact hkeep stripe lock (h n t₀ stripe lock ht₀ hlock)
  · have hall : (ops ++ [op]).take n = ops ++ [op] :=
      List.take_of_length_le (by rw [List.length_append, List.length_singleton]; omega)
    have ht' : after chunkCount (ops ++ [op]) = some t' := by
      rw [after, tryRun_concat]
      exact (congrArg (·.bind fun s => step chunkCount s op) hafter).trans hstep
    rw [hall, ht'] at ht₀
    obtain rfl := Option.some.inj ht₀
    exact hlock

/-- In a run of covered requests no access goes wrong, every lock is sound, and a mapping that a
lock contains at some time it contains at all later times. -/
theorem sound_after (hcount : chunkCount < 2 ^ 32) (ops : List LockOp)
    (hwf : ∀ op ∈ ops, op.request.WellFormed chunkCount)
    (hcovered : ∀ n op t, ops[n]? = some op → after chunkCount (ops.take n) = some t →
      Covered chunkCount t op) :
    ∃ t, after chunkCount ops = some t ∧
      (∀ stripe lock, t.lookup stripe = some lock → ∃ es, Sound chunkCount ops stripe lock es) ∧
      ∀ n t₀ stripe lock₀ es₀, after chunkCount (ops.take n) = some t₀ →
        t₀.lookup stripe = some lock₀ → lock₀.Holds es₀ →
        ∃ lock es, t.lookup stripe = some lock ∧ lock.Holds es ∧ ∀ e ∈ es₀, e ∈ es := by
  have hstart : Inv chunkCount [] ∅ ∧ Stable chunkCount [] ∅ := by
    constructor
    · intro stripe lock hlock
      exact absurd hlock (by simp)
    · intro n t₀ stripe lock ht₀ hlock
      rw [List.take_nil] at ht₀
      obtain rfl := Option.some.inj ht₀
      exact hlock
  have hrun := tryRun_invariant_history
    (fun past t => Inv chunkCount past t ∧ Stable chunkCount past t)
    (fun t op => op.request.WellFormed chunkCount ∧ Covered chunkCount t op) hstart
    (fun past t op hafter hinv hop => by
      obtain ⟨t', hstep, hinv', hkeep⟩ := hinv.1.step hcount hafter hop.1 hop.2
      exact ⟨t', hstep, hinv', hinv.2.concat hafter hstep hkeep⟩)
    ops
    (fun n op t hop hafter => ⟨hwf op (List.mem_of_getElem? hop), hcovered n op t hop hafter⟩)
  obtain ⟨t, hafter, hinv, hstable⟩ := hrun
  refine ⟨t, hafter, hinv, fun n t₀ stripe lock₀ es₀ ht₀ hlock₀ hholds => ?_⟩
  exact ⟨lock₀, es₀, hstable n t₀ stripe lock₀ ht₀ hlock₀, hholds, fun _ he => he⟩

/-! ## A stripe of four chunks -/

/-- Chunks `0` and `1` are lost, and the request names both. -/
def sampleLock : LockRequest where
  stripe := ⟨0, 7⟩
  entries := [⟨(0, 1), (0, 3)⟩, ⟨(0, 0), (0, 2)⟩]
  ongoingAtChunk := 3
  survivingChunkIds := [2, 3]

/-- A later request, for chunk `1` alone. -/
def sampleExpand : LockRequest where
  stripe := ⟨0, 7⟩
  entries := [⟨(0, 1), (0, 3)⟩]
  ongoingAtChunk := 1
  survivingChunkIds := [2, 3]

theorem sampleLock_wellFormed : sampleLock.WellFormed 4 := by
  constructor <;> decide

theorem sampleExpand_wellFormed : sampleExpand.WellFormed 4 := by
  constructor <;> decide

theorem wordsOf_injective : Function.Injective wordsOf := by
  intro l l' h
  induction l generalizing l' with
  | nil =>
    cases l' with
    | nil => rfl
    | cons p l' => exact absurd h (by simp [wordsOf])
  | cons p l ih =>
    cases l' with
    | nil => exact absurd h (by simp [wordsOf])
    | cons q l' =>
      simp only [wordsOf, List.map_cons, WordArray.ofPairs_cons, List.cons.injEq,
        Option.some.injEq] at h
      rw [Prod.ext h.1 h.2.1, ih h.2.2]

theorem sound_after_sample :
    ∃ t, after 4 [.insert sampleLock, .expand sampleExpand] = some t ∧
      (∀ stripe lock, t.lookup stripe = some lock →
        ∃ es, Sound 4 [.insert sampleLock, .expand sampleExpand] stripe lock es) ∧
      ∀ n t₀ stripe lock₀ es₀,
        after 4 (List.take n [.insert sampleLock, .expand sampleExpand]) = some t₀ →
        t₀.lookup stripe = some lock₀ → lock₀.Holds es₀ →
        ∃ lock es, t.lookup stripe = some lock ∧ lock.Holds es ∧ ∀ e ∈ es₀, e ∈ es := by
  refine sound_after (by decide) _ ?_ ?_
  · intro op hop
    rcases List.mem_cons.mp hop with rfl | hop
    · exact sampleLock_wellFormed
    · obtain rfl := List.mem_singleton.mp hop
      exact sampleExpand_wellFormed
  · intro n op t hop hafter
    have hn : n < 2 := (List.getElem?_eq_some_iff.mp hop).1
    interval_cases n
    · obtain rfl := Option.some.inj hop
      exact fun _ => ⟨by decide, by unfold LockRequest.NamesAllLost; decide⟩
    · obtain rfl := Option.some.inj hop
      intro lock es hlock hholds e' he'
      have heval : (after 4 [.insert sampleLock]).map (fun t =>
          (t.lookup sampleExpand.stripe).map DegradedLock.original) =
            some (some (wordsOf [(0, 0), (0, 1)])) := by decide +kernel
      rw [show after 4 [.insert sampleLock] = some t from hafter, Option.map_some, hlock,
        Option.map_some] at heval
      have horiginal : wordsOf (es.map LockEntry.original) = wordsOf [(0, 0), (0, 1)] :=
        hholds.original.symm.trans (Option.some.inj (Option.some.inj heval))
      have hmap := wordsOf_injective horiginal
      have hmem : e'.original ∈ es.map LockEntry.original := by
        obtain rfl := List.mem_singleton.mp he'
        rw [hmap]
        decide
      exact List.mem_map.mp hmem

/-- Chunk `1` is lost as well, but the request does not name it: the entry for it is written
behind the arrays. -/
def sampleUnnamed : LockRequest where
  stripe := ⟨0, 7⟩
  entries := [⟨(0, 0), (0, 2)⟩]
  ongoingAtChunk := 0
  survivingChunkIds := [2, 3]

theorem not_sound_of_unnamed :
    ¬ ∀ (chunkCount : ℕ) (ops : List LockOp), chunkCount < 2 ^ 32 →
      (∀ op ∈ ops, op.request.WellFormed chunkCount) → ∃ t, after chunkCount ops = some t := by
  intro h
  have hwf : sampleUnnamed.WellFormed 4 := by constructor <;> decide
  obtain ⟨t, ht⟩ := h 4 [.insert sampleUnnamed] (by decide) fun op hop => by
    obtain rfl := List.mem_singleton.mp hop
    exact hwf
  have hnone : after 4 [.insert sampleUnnamed] = none := by decide +kernel
  exact absurd (hnone.symm.trans ht) (by simp)

end DegradedLocks

end MemEC.Coordinator
