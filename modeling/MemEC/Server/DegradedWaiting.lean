import MemEC.Common.ChunkPool
import MemEC.Common.Key
import MemEC.Lib.Run
import MemEC.Lib.Waiting

/-!
# Operations that wait for a reconstruction

Degraded operations on a sealed chunk wait for the chunk, those on an unsealed
one for the key. The operations that wait for chunks are kept by stripe, with
the chunk that each of them needs.

A chunk that arrives ends the waiting of the operations for this chunk, and the
stripe is marked as reconstructed even if others still wait. As long as they do,
an operation for the chunk that has arrived is put on the list as well.
-/

namespace MemEC.Server

open MemEC.Lib MemEC.Common

/-- `pid_s`. -/
structure PendingOp where
  instanceId : ℕ
  requestId : ℕ
  chunkId : ℕ
deriving DecidableEq

/-- `DegradedMap::degraded`. -/
structure DegradedWaiting where
  chunks : Waiting Metadata PendingOp
  keys : Waiting Key.Ident PendingOp

/-- The key of the maps over stripes: the chunk id is `-1`. -/
def stripeOf (listId stripeId : ℕ) : Metadata := ⟨listId, stripeId, 4294967295⟩

/-- The calls. A call of `insertDegradedChunk` may be without a request. -/
inductive DegradedCall
  | insertDegradedChunk (listId stripeId chunkId : ℕ) (request : Option (ℕ × ℕ))
  | deleteDegradedChunk (listId stripeId chunkId : ℕ) (force ignoreChunkId : Bool)
  | insertDegradedKey (key : Key) (instanceId requestId : ℕ)
  | deleteDegradedKey (key : Key) (success : Bool)

/-- The reply to an `insert` stands for the result and `isReconstructed`: `start` for `true`, and
`wait` and `finished` for `false` without and with `isReconstructed`. -/
abbrev DegradedReply := Waiting.Reply PendingOp

namespace DegradedWaiting

def empty : DegradedWaiting := ⟨.empty, .empty⟩

variable (d : DegradedWaiting)

/-- The two functions `insertDegradedChunk`. -/
def insertDegradedChunk (listId stripeId chunkId : ℕ) (request : Option (ℕ × ℕ)) :
    DegradedWaiting × DegradedReply :=
  let r := d.chunks.insert (stripeOf listId stripeId)
    (request.toList.map fun r => ⟨r.1, r.2, chunkId⟩)
  ({ d with chunks := r.1 }, r.2)

/-- `deleteDegradedChunk`. -/
def deleteDegradedChunk (listId stripeId chunkId : ℕ) (force ignoreChunkId : Bool) :
    DegradedWaiting × DegradedReply :=
  let r := d.chunks.delete (stripeOf listId stripeId)
    (fun pid => ignoreChunkId || pid.chunkId = chunkId) force true
  ({ d with chunks := r.1 }, r.2)

/-- `insertDegradedKey`. -/
def insertDegradedKey (key : Key) (instanceId requestId : ℕ) : DegradedWaiting × DegradedReply :=
  let r := d.keys.insert key.ident [⟨instanceId, requestId, 0⟩]
  ({ d with keys := r.1 }, r.2)

/-- `deleteDegradedKey`. -/
def deleteDegradedKey (key : Key) (success : Bool) : DegradedWaiting × DegradedReply :=
  let r := d.keys.delete key.ident (fun _ => true) false success
  ({ d with keys := r.1 }, r.2)

def serve : DegradedCall → DegradedWaiting × DegradedReply
  | .insertDegradedChunk listId stripeId chunkId request =>
    d.insertDegradedChunk listId stripeId chunkId request
  | .deleteDegradedChunk listId stripeId chunkId force ignoreChunkId =>
    d.deleteDegradedChunk listId stripeId chunkId force ignoreChunkId
  | .insertDegradedKey key instanceId requestId => d.insertDegradedKey key instanceId requestId
  | .deleteDegradedKey key success => d.deleteDegradedKey key success

end DegradedWaiting

/-! ## What the calls are to do -/

/-- The calls so far with their replies. -/
abbrev DegradedHistory := List (DegradedCall × DegradedReply)

/-- The calls so far, on the lists of the stripes. -/
def DegradedCall.onChunks : DegradedCall → Option (Waiting.Call Metadata PendingOp)
  | insertDegradedChunk listId stripeId chunkId request =>
    some (.insert (stripeOf listId stripeId) (request.toList.map fun r => ⟨r.1, r.2, chunkId⟩))
  | deleteDegradedChunk listId stripeId chunkId force ignoreChunkId =>
    some (.delete (stripeOf listId stripeId)
      (fun pid => ignoreChunkId || pid.chunkId = chunkId) force true)
  | _ => none

/-- The calls so far, on the lists of the keys. -/
def DegradedCall.onKeys : DegradedCall → Option (Waiting.Call Key.Ident PendingOp)
  | insertDegradedKey key instanceId requestId =>
    some (.insert key.ident [⟨instanceId, requestId, 0⟩])
  | deleteDegradedKey key success => some (.delete key.ident (fun _ => true) false success)
  | _ => none

namespace DegradedHistory

variable (h : DegradedHistory)

def chunks : Waiting.History Metadata PendingOp :=
  h.filterMap fun e => e.1.onChunks.map fun c => (c, e.2)

def keys : Waiting.History Key.Ident PendingOp :=
  h.filterMap fun e => e.1.onKeys.map fun c => (c, e.2)

/-- The reconstruction of the chunk, or of the whole stripe, has been reported. A report that finds
nothing and is not forced is none. -/
def Reported (listId stripeId chunkId : ℕ) : Prop :=
  ∃ reported force ignoreChunkId ops,
    (DegradedCall.deleteDegradedChunk listId stripeId reported force ignoreChunkId,
      Waiting.Reply.returned ops) ∈ h ∧
    (ignoreChunkId = true ∨ reported = chunkId) ∧ (ops.isSome = true ∨ force = true)

/-- The reply to a call is right: whoever is told to start is the only one, nobody is told to wait
for what has been reported, and a report returns the operations that are owed a return by it. -/
def Fits : DegradedCall → DegradedReply → Prop
  | .insertDegradedChunk listId stripeId _ _, .start =>
    Waiting.busy h.chunks (stripeOf listId stripeId) = false
  | .insertDegradedChunk listId stripeId chunkId _, .wait => ¬ h.Reported listId stripeId chunkId
  | .deleteDegradedChunk listId stripeId chunkId _ ignoreChunkId, .returned ops =>
    ops.getD [] = (Waiting.owed h.chunks (stripeOf listId stripeId)).filter fun pid =>
      ignoreChunkId || pid.chunkId = chunkId
  | .insertDegradedKey key _ _, .start => Waiting.busy h.keys key.ident = false
  | .insertDegradedKey key _ _, .wait => ¬ Waiting.Recorded h.keys key.ident
  | .deleteDegradedKey key _, .returned ops => ops.getD [] = Waiting.owed h.keys key.ident
  | _, _ => True

end DegradedHistory

/-- The state after the calls, and their history. -/
def afterCalls (calls : List DegradedCall) : DegradedWaiting × DegradedHistory :=
  run (fun (d, h) c => ((d.serve c).1, h ++ [(c, (d.serve c).2)])) (.empty, []) calls

/-! ## The two sets of lists -/

variable {d : DegradedWaiting} {h : DegradedHistory}

theorem DegradedHistory.chunks_concat (c : DegradedCall) (r : DegradedReply) :
    DegradedHistory.chunks (h ++ [(c, r)]) =
      h.chunks ++ (c.onChunks.map fun call => (call, r)).toList := by
  rw [DegradedHistory.chunks, List.filterMap_append]
  cases c <;> rfl

theorem DegradedHistory.keys_concat (c : DegradedCall) (r : DegradedReply) :
    DegradedHistory.keys (h ++ [(c, r)]) =
      h.keys ++ (c.onKeys.map fun call => (call, r)).toList := by
  rw [DegradedHistory.keys, List.filterMap_append]
  cases c <;> rfl

/-- A call is one on the lists of the stripes or one on those of the keys. -/
theorem DegradedWaiting.serve_cases (d : DegradedWaiting) (c : DegradedCall) :
    (∃ call, c.onChunks = some call ∧ c.onKeys = none ∧
        d.serve c = ({ d with chunks := (d.chunks.serve call).1 }, (d.chunks.serve call).2)) ∨
      ∃ call, c.onKeys = some call ∧ c.onChunks = none ∧
        d.serve c = ({ d with keys := (d.keys.serve call).1 }, (d.keys.serve call).2) := by
  cases c with
  | insertDegradedChunk => exact Or.inl ⟨_, rfl, rfl, rfl⟩
  | deleteDegradedChunk => exact Or.inl ⟨_, rfl, rfl, rfl⟩
  | insertDegradedKey => exact Or.inr ⟨_, rfl, rfl, rfl⟩
  | deleteDegradedKey => exact Or.inr ⟨_, rfl, rfl, rfl⟩

/-- The lists agree with the history. A report for a key covers all the operations, so nothing waits
for a key that is reconstructed. -/
structure WaitingAgrees (d : DegradedWaiting) (h : DegradedHistory) : Prop where
  chunks : d.chunks.Inv h.chunks
  keys : d.keys.Inv h.keys
  exclusive : d.keys.Exclusive
  conservedChunks : ∀ k, Waiting.Conserved h.chunks k
  conservedKeys : ∀ k, Waiting.Conserved h.keys k

theorem waitingAgrees_empty : WaitingAgrees .empty [] where
  chunks := Waiting.inv_empty
  keys := Waiting.inv_empty
  exclusive _ hk := absurd hk (Finset.notMem_empty _)
  conservedChunks _ := List.Perm.refl _
  conservedKeys _ := List.Perm.refl _

theorem exclusive_serve_onKeys {w : Waiting Key.Ident PendingOp} (hex : w.Exclusive)
    {c : DegradedCall} {call : Waiting.Call Key.Ident PendingOp} (hcall : c.onKeys = some call) :
    (w.serve call).1.Exclusive := by
  cases c with
  | insertDegradedKey key instanceId requestId =>
    obtain rfl := Option.some.inj hcall
    exact hex.insert _ _
  | deleteDegradedKey key success =>
    obtain rfl := Option.some.inj hcall
    exact hex.delete _ (fun _ => rfl) _ _
  | insertDegradedChunk => cases hcall
  | deleteDegradedChunk => cases hcall

theorem WaitingAgrees.step (ha : WaitingAgrees d h) (c : DegradedCall) :
    WaitingAgrees (d.serve c).1 (h ++ [(c, (d.serve c).2)]) := by
  rcases DegradedWaiting.serve_cases d c with
    ⟨call, hchunks, hkeys, heq⟩ | ⟨call, hkeys, hchunks, heq⟩
  · have hc : DegradedHistory.chunks (h ++ [(c, (d.serve c).2)]) =
        h.chunks ++ [(call, (d.chunks.serve call).2)] := by
      rw [DegradedHistory.chunks_concat, hchunks, heq]
      rfl
    have hk : DegradedHistory.keys (h ++ [(c, (d.serve c).2)]) = h.keys := by
      rw [DegradedHistory.keys_concat, hkeys]
      exact List.append_nil _
    constructor
    · rw [hc, heq]
      exact ha.chunks.step call
    · rw [hk, heq]
      exact ha.keys
    · rw [heq]
      exact ha.exclusive
    · intro k
      rw [hc]
      exact ha.chunks.conserved (ha.conservedChunks k) call
    · rw [hk]
      exact ha.conservedKeys
  · have hk : DegradedHistory.keys (h ++ [(c, (d.serve c).2)]) =
        h.keys ++ [(call, (d.keys.serve call).2)] := by
      rw [DegradedHistory.keys_concat, hkeys, heq]
      rfl
    have hc : DegradedHistory.chunks (h ++ [(c, (d.serve c).2)]) = h.chunks := by
      rw [DegradedHistory.chunks_concat, hchunks]
      exact List.append_nil _
    constructor
    · rw [hc, heq]
      exact ha.chunks
    · rw [hk, heq]
      exact ha.keys.step call
    · rw [heq]
      exact exclusive_serve_onKeys ha.exclusive hkeys
    · rw [hc]
      exact ha.conservedChunks
    · intro k
      rw [hk]
      exact ha.keys.conserved (ha.conservedKeys k) call

theorem waitingAgrees_afterCalls (calls : List DegradedCall) :
    WaitingAgrees (afterCalls calls).1 (afterCalls calls).2 := by
  induction calls using List.reverseRecOn with
  | nil => exact waitingAgrees_empty
  | append_singleton calls c ih =>
    rw [afterCalls, run_concat]
    exact ih.step c

/-! ## Who is told to wait -/

/-- The stripe of an `insertDegradedChunk` for a chunk that was reported has no list any more. -/
def DegradedCall.Timely (d : DegradedWaiting) (h : DegradedHistory) : DegradedCall → Prop
  | insertDegradedChunk listId stripeId chunkId _ =>
    h.Reported listId stripeId chunkId → d.chunks.lists.lookup (stripeOf listId stripeId) = none
  | _ => True

/-- Only an operation for a chunk of a stripe that still has a list can be told to wait wrongly. -/
theorem WaitingAgrees.fits_iff (ha : WaitingAgrees d h) (c : DegradedCall) :
    h.Fits c (d.serve c).2 ↔ c.Timely d h := by
  cases c with
  | insertDegradedChunk listId stripeId chunkId request =>
    have hright := ha.chunks.right (.insert (stripeOf listId stripeId)
      (request.toList.map fun r => ⟨r.1, r.2, chunkId⟩))
    rcases Waiting.insert_cases d.chunks (stripeOf listId stripeId)
      (request.toList.map fun r => ⟨r.1, r.2, chunkId⟩) with
      ⟨waiting, hsome, heq⟩ | ⟨hnone, hfin, heq⟩ | ⟨hnone, hfin, heq⟩
    · simp only [DegradedWaiting.serve, DegradedWaiting.insertDegradedChunk, heq,
        DegradedHistory.Fits, DegradedCall.Timely, hsome, reduceCtorEq, imp_false]
    · simp only [DegradedWaiting.serve, DegradedWaiting.insertDegradedChunk, heq,
        DegradedHistory.Fits, DegradedCall.Timely, hnone, implies_true]
    · rw [Waiting.serve, heq] at hright
      have hbusy : Waiting.busy h.chunks (stripeOf listId stripeId) = false := hright
      simp only [DegradedWaiting.serve, DegradedWaiting.insertDegradedChunk, heq,
        DegradedHistory.Fits, DegradedCall.Timely, hnone, hbusy, implies_true]
  | deleteDegradedChunk listId stripeId chunkId force ignoreChunkId =>
    refine iff_of_true ?_ trivial
    have hright := ha.chunks.right (.delete (stripeOf listId stripeId)
      (fun pid => ignoreChunkId || pid.chunkId = chunkId) force true)
    rw [DegradedWaiting.serve, DegradedWaiting.deleteDegradedChunk]
    rw [Waiting.serve] at hright
    revert hright
    generalize (d.chunks.delete _ _ _ _).2 = reply
    intro hright
    cases reply <;> exact hright
  | insertDegradedKey key instanceId requestId =>
    refine iff_of_true ?_ trivial
    have hright := ha.keys.right (.insert key.ident [⟨instanceId, requestId, 0⟩])
    rcases Waiting.insert_cases d.keys key.ident [⟨instanceId, requestId, 0⟩] with
      ⟨waiting, hsome, heq⟩ | ⟨hnone, hfin, heq⟩ | ⟨hnone, hfin, heq⟩
    · simp only [DegradedWaiting.serve, DegradedWaiting.insertDegradedKey, heq,
        DegradedHistory.Fits, ha.keys.recorded]
      intro hfin
      rw [ha.exclusive _ hfin] at hsome
      cases hsome
    · simp only [DegradedWaiting.serve, DegradedWaiting.insertDegradedKey, heq,
        DegradedHistory.Fits]
    · rw [Waiting.serve, heq] at hright
      simp only [DegradedWaiting.serve, DegradedWaiting.insertDegradedKey, heq]
      exact hright
  | deleteDegradedKey key success =>
    refine iff_of_true ?_ trivial
    have hright := ha.keys.right (.delete key.ident (fun _ => true) false success)
    rw [DegradedWaiting.serve, DegradedWaiting.deleteDegradedKey]
    rw [Waiting.serve] at hright
    revert hright
    generalize (d.keys.delete _ _ _ _).2 = reply
    intro hright
    cases reply with
    | returned ops => exact hright.trans (List.filter_true _)
    | start => trivial
    | wait => trivial
    | finished => trivial

/-- In a run of the calls every operation that was put on a list is returned once or still owed, and
the replies are right exactly when no call for a reported chunk meets a list of its stripe. -/
theorem fits_afterCalls_iff_timely (calls : List DegradedCall) :
    ((∀ n c, calls[n]? = some c →
        (afterCalls (calls.take n)).2.Fits c ((afterCalls (calls.take n)).1.serve c).2) ∧
      (∀ k, Waiting.Conserved (afterCalls calls).2.chunks k) ∧
      ∀ k, Waiting.Conserved (afterCalls calls).2.keys k) ↔
    ∀ n (c : DegradedCall), calls[n]? = some c →
      c.Timely (afterCalls (calls.take n)).1 (afterCalls (calls.take n)).2 := by
  have hagrees := waitingAgrees_afterCalls calls
  constructor
  · rintro ⟨hfits, -, -⟩ n c hc
    exact ((waitingAgrees_afterCalls (calls.take n)).fits_iff c).mp (hfits n c hc)
  · intro htimely
    refine ⟨fun n c hc => ?_, hagrees.conservedChunks, hagrees.conservedKeys⟩
    exact ((waitingAgrees_afterCalls (calls.take n)).fits_iff c).mpr (htimely n c hc)

/-- Two operations wait for two chunks of a stripe, the first chunk arrives, and an operation for it
comes while the second is still awaited. -/
def afterFirstChunk : List DegradedCall :=
  [.insertDegradedChunk 0 0 1 (some (1, 1)), .insertDegradedChunk 0 0 2 (some (1, 2)),
    .deleteDegradedChunk 0 0 1 false false, .insertDegradedChunk 0 0 1 (some (1, 3))]

theorem not_fits_afterFirstChunk :
    ¬ ∀ n c, afterFirstChunk[n]? = some c →
      (afterCalls (afterFirstChunk.take n)).2.Fits c
        ((afterCalls (afterFirstChunk.take n)).1.serve c).2 := by
  intro hfits
  have hwait : ((afterCalls (afterFirstChunk.take 3)).1.serve
      (.insertDegradedChunk 0 0 1 (some (1, 3)))).2 = .wait := rfl
  have hlast := hfits 3 (.insertDegradedChunk 0 0 1 (some (1, 3))) rfl
  rw [hwait] at hlast
  apply hlast
  have hpast : (afterCalls (afterFirstChunk.take 3)).2[2]? =
      some (.deleteDegradedChunk 0 0 1 false false, .returned (some [⟨1, 1, 1⟩])) := rfl
  exact ⟨1, false, false, some [⟨1, 1, 1⟩], List.mem_of_getElem? hpast, Or.inr rfl, Or.inl rfl⟩

end MemEC.Server
