import Mathlib.Data.List.AList
import Mathlib.Tactic
import MemEC.Common.Key
import MemEC.Lib.Run
import MemEC.Lib.SelectionSort
import MemEC.Lib.WordArray

/-!
# Degraded locks

The coordinator keeps one lock for each stripe with lost chunks. A lock maps a
lost chunk to the chunk whose server stands in for it, in two parallel flat
arrays of `(list ID, chunk ID)` pairs that are sorted by the ID of the lost chunk.

A step has no result where the code would access memory outside an array, use
a word that was never written, or fail an assertion.
-/

namespace MemEC.Coordinator

open MemEC.Common MemEC.Lib

/-- A lost chunk and the chunk it is redirected to, as `(list ID, chunk ID)`. -/
structure LockEntry where
  original : ℕ × ℕ
  reconstructed : ℕ × ℕ
  deriving DecidableEq, Repr

/-- The flat array of pairs. -/
def wordsOf (l : List (ℕ × ℕ)) : WordArray :=
  WordArray.ofPairs (l.map fun p => (some p.1, some p.2))

/-- `reconstructedCount` is `none` until it is assigned. -/
structure DegradedLock where
  original : WordArray
  reconstructed : WordArray
  reconstructedCount : Option ℕ
  ongoingAtChunk : ℕ
  deriving DecidableEq, Repr

namespace DegradedLock

def set (lock : DegradedLock) (original reconstructed : WordArray)
    (reconstructedCount ongoingAtChunk : ℕ) : DegradedLock :=
  if reconstructedCount = 0 then
    -- the count itself is not assigned here
    { lock with original := [], reconstructed := [], ongoingAtChunk := 2 ^ 32 - 1 }
  else
    { original, reconstructed, reconstructedCount := some reconstructedCount, ongoingAtChunk }

/-- The constructor. -/
def new (original reconstructed : WordArray) (reconstructedCount ongoingAtChunk : ℕ) :
    DegradedLock :=
  set ⟨[], [], none, 0⟩ original reconstructed reconstructedCount ongoingAtChunk

/-! ## `sort` -/

/-- The body of the loop that looks for the least chunk ID. -/
def lesser (original : WordArray) (minIndex j : ℕ) : Option ℕ := do
  let a ← original.value (2 * j + 1)
  let b ← original.value (2 * minIndex + 1)
  return if a < b then j else minIndex

/-- One round of the selection sort. -/
def sortRound (n : ℕ) (lock : DegradedLock) (i : ℕ) : Option DegradedLock := do
  let tmpOriginal ← lock.original.loadPair i
  let tmpReconstructed ← lock.reconstructed.loadPair i
  let minIndex ← (List.range' (i + 1) (n - (i + 1))).foldlM (lesser lock.original) i
  let original ← lock.original.copyPair i lock.original minIndex
  let reconstructed ← lock.reconstructed.copyPair i lock.reconstructed minIndex
  let original ← original.storePair minIndex tmpOriginal
  let reconstructed ← reconstructed.storePair minIndex tmpReconstructed
  return { lock with original, reconstructed }

def sort (lock : DegradedLock) : Option DegradedLock := do
  let n ← lock.reconstructedCount
  (List.range n).foldlM (sortRound n) lock

/-! ## `dup` -/

/-- The arrays that are being filled, and the next entry to write. -/
structure Filling where
  original : WordArray
  reconstructed : WordArray
  ptr : ℕ
  deriving Repr

/-- The body of the loop of `dup` that adds an entry for a chunk that is neither surviving nor
reconstructed. `redirectedChunkIds` does not grow with the entries that are added. -/
def addUnhandled (listId : Option ℕ) (handledChunkIds redirectedChunkIds survivingChunkIds : List ℕ)
    (f : Filling) (i : ℕ) : Option Filling :=
  if i ∈ handledChunkIds then some f
  else do
    let original ← f.original.storePair f.ptr (listId, some i)
    let reconstructed ← f.reconstructed.store (2 * f.ptr) listId
    let reconstructed ←
      match survivingChunkIds.find? (· ∉ redirectedChunkIds) with
      | some s => reconstructed.store (2 * f.ptr + 1) (some s)
      | none => some reconstructed
    return ⟨original, reconstructed, f.ptr + 1⟩

def dup (lock : DegradedLock) (survivingChunkIds : List ℕ) (chunkCount : ℕ) :
    Option DegradedLock := do
  let count ← lock.reconstructedCount
  if count = 0 then some lock
  else do
    let listId ← lock.original.load 0
    let newReconstructedCount := sub32 (sub32 chunkCount survivingChunkIds.length) count
    -- assert( newReconstructedCount < chunkCount )
    if chunkCount ≤ newReconstructedCount then none
    else do
      let size := count * 2 + newReconstructedCount
      let original ← (List.range count).foldlM
        (fun dst i => WordArray.copyPair dst i lock.original i) (WordArray.alloc size)
      let reconstructed ← (List.range count).foldlM
        (fun dst i => WordArray.copyPair dst i lock.reconstructed i) (WordArray.alloc size)
      if newReconstructedCount = 0 then
        sort { lock with original, reconstructed }
      else do
        let handled ← (List.range count).mapM fun i => lock.original.value (2 * i + 1)
        let redirected ← (List.range count).mapM fun i => lock.reconstructed.value (2 * i + 1)
        let f ← (List.range chunkCount).foldlM
          (addUnhandled listId (handled ++ survivingChunkIds) redirected survivingChunkIds)
          ⟨original, reconstructed, count⟩
        sort { lock with
          original := f.original
          reconstructed := f.reconstructed
          reconstructedCount := some (count + newReconstructedCount) }

/-! ## `expand` -/

/-- Whether the lock has an entry for a chunk. -/
def has (lock : DegradedLock) (count listId chunkId : ℕ) : Option Bool :=
  (List.range count).anyM fun j => do
    let l ← lock.original.value (2 * j)
    if l = listId then do
      let c ← lock.original.value (2 * j + 1)
      return c == chunkId
    else return false

/-- Whether entry `i` of a request is new to the lock. -/
def isNew (lock : DegradedLock) (count : ℕ) (original : WordArray) (i : ℕ) : Option Bool := do
  let newListId ← original.value (2 * i)
  let newChunkId ← original.value (2 * i + 1)
  let found ← lock.has count newListId newChunkId
  return !found

/-- The body of the loop of `expand` that copies the new entries. -/
def addNew (lock : DegradedLock) (count : ℕ) (original reconstructed : WordArray) (f : Filling)
    (i : ℕ) : Option Filling := do
  let new ← lock.isNew count original i
  if new then do
    let o ← f.original.copyPair f.ptr original i
    let r ← f.reconstructed.copyPair f.ptr reconstructed i
    return ⟨o, r, f.ptr + 1⟩
  else return f

def expand (lock : DegradedLock) (original reconstructed : WordArray)
    (reconstructedCount ongoingAtChunk : ℕ) (survivingChunkIds : List ℕ) (chunkCount : ℕ) :
    Option DegradedLock := do
  let count ← lock.reconstructedCount
  let lock ←
    if count = 0 then
      (lock.set original reconstructed reconstructedCount ongoingAtChunk).dup survivingChunkIds
        chunkCount
    else some lock
  if reconstructedCount = 0 then some lock
  else do
    let count ← lock.reconstructedCount
    let new ← (List.range reconstructedCount).mapM (lock.isNew count original)
    let newReconstructedCount := new.count true
    if newReconstructedCount = 0 then some lock
    else do
      -- the arrays are allocated with one word, not two, for each entry
      let total := newReconstructedCount + count
      let o ← (WordArray.alloc total).copyFront lock.original (count * 2)
      let r ← (WordArray.alloc total).copyFront lock.reconstructed (count * 2)
      let f ← (List.range reconstructedCount).foldlM (lock.addNew count original reconstructed)
        ⟨o, r, count⟩
      sort { lock with
        original := f.original
        reconstructed := f.reconstructed
        reconstructedCount := some total }

end DegradedLock

/-! ## The table of the locks -/

structure ListStripe where
  listId : ℕ
  stripeId : ℕ
  deriving DecidableEq, Repr

/-- `degradedLocks`. -/
abbrev DegradedLocks := AList fun _ : ListStripe => DegradedLock

/-- The arguments of a request. The count of its entries goes with its arrays. -/
structure LockRequest where
  stripe : ListStripe
  entries : List LockEntry
  ongoingAtChunk : ℕ
  survivingChunkIds : List ℕ
  deriving DecidableEq, Repr

namespace LockRequest

def original (r : LockRequest) : WordArray := wordsOf (r.entries.map LockEntry.original)

def reconstructed (r : LockRequest) : WordArray := wordsOf (r.entries.map LockEntry.reconstructed)

end LockRequest

namespace DegradedLocks

def insertDegradedLock (t : DegradedLocks) (r : LockRequest) (chunkCount : ℕ) :
    Option (DegradedLocks × Bool) :=
  let degradedLock :=
    DegradedLock.new r.original r.reconstructed r.entries.length r.ongoingAtChunk
  match t.lookup r.stripe with
  | none => do
    let degradedLock ← degradedLock.dup r.survivingChunkIds chunkCount
    return (t.insert r.stripe degradedLock, true)
  | some _ => some (t, false)

/-- The lock that is found is returned with the table. -/
def expandDegradedLock (t : DegradedLocks) (r : LockRequest) (chunkCount : ℕ) :
    Option (DegradedLocks × Option DegradedLock) :=
  match t.lookup r.stripe with
  | none => some (t, none)
  | some d => do
    let d ← d.expand r.original r.reconstructed r.entries.length r.ongoingAtChunk
      r.survivingChunkIds chunkCount
    return (t.insert r.stripe d, some d)

end DegradedLocks

end MemEC.Coordinator
