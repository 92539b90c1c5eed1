import MemEC.Common.ChunkPool
import MemEC.Lib.Run
import MemEC.Lib.Tally

/-!
# The reconstruction at a surviving server

The coordinator asks a surviving server for lost chunks (RECONSTRUCTION) and for
lost objects that were in no sealed chunk (RECONSTRUCTION_UNSEALED), with one
request ID for all requests about a lost chunk of a stripe list. The server
collects what it is asked for in one entry of its pending map, stores the chunks
(SET_CHUNK) and the objects (BATCH_KEY_VALUES) at the server that takes over, and
tells the coordinator a number of stripes or of keys whenever a response leaves
none of the kind in the entry.

The state here is that of one request ID. How a chunk is rebuilt before it is
stored is left out, and the counts are natural numbers.
-/

namespace MemEC.Server

open MemEC.Lib MemEC.Common

variable {κ : Type} [DecidableEq κ]

/-- `PendingReconstruction`. -/
structure PendingReconstruction (κ : Type) where
  listId : ℕ
  chunkId : ℕ
  chunks : Tally ℕ
  unsealed : Tally κ

namespace PendingReconstruction

/-- The entry is taken out of the map when nothing remains. -/
def orErased (r : PendingReconstruction κ) : Option (PendingReconstruction κ) :=
  if r.chunks.items = ∅ ∧ r.unsealed.items = ∅ then none else some r

end PendingReconstruction

/-- `Pending::insertReconstruction`, on the entry of the request ID. -/
def insertReconstruction (entry : Option (PendingReconstruction κ)) (listId chunkId : ℕ)
    (stripeIds : Finset ℕ) (unsealedKeys : Finset κ) : Option (PendingReconstruction κ) × Bool :=
  match entry with
  | none => (some ⟨listId, chunkId, .ofSet stripeIds, .ofSet unsealedKeys⟩, true)
  | some r =>
    if r.listId = listId ∧ r.chunkId = chunkId then
      (some { r with
        chunks := r.chunks.merge stripeIds
        unsealed := r.unsealed.merge unsealedKeys }, true)
    else (some r, false)

/-- `Pending::eraseReconstruction` of a stripe: the entry after it, whether it had the stripe, and
what remains. It is `none` when there is no entry, or one for another chunk. -/
def eraseStripe (entry : Option (PendingReconstruction κ)) (listId stripeId chunkId : ℕ) :
    Option (Option (PendingReconstruction κ) × Bool × PendingReconstruction κ) :=
  match entry with
  | none => none
  | some r =>
    if listId = r.listId ∧ chunkId = r.chunkId then
      let remaining := { r with chunks := r.chunks.remove {stripeId} }
      some (remaining.orErased, stripeId ∈ r.chunks.items, remaining)
    else none

/-- `Pending::eraseReconstruction` of a key. -/
def eraseKey (entry : Option (PendingReconstruction κ)) (listId chunkId : ℕ) (key : κ) :
    Option (Option (PendingReconstruction κ) × Bool × PendingReconstruction κ) :=
  match entry with
  | none => none
  | some r =>
    if listId = r.listId ∧ chunkId = r.chunkId then
      let remaining := { r with unsealed := r.unsealed.remove {key} }
      some (remaining.orErased, key ∈ r.unsealed.items, remaining)
    else none

/-- A server, as far as a request ID is concerned. -/
structure Reconstructing (κ : Type) where
  entry : Option (PendingReconstruction κ)
  /-- The chunks whose SET_CHUNK response is not handled. -/
  storing : List Metadata
  /-- The keys of each BATCH_KEY_VALUES request whose response is not handled. -/
  forwarding : List (List κ)
  /-- The numbers in the responses to the coordinator. -/
  stripeReports : List ℕ
  keyReports : List ℕ
  /-- What the server was asked for. -/
  askedStripes : Finset ℕ
  askedKeys : Finset κ

inductive ReconstructAction (κ : Type)
  /-- A RECONSTRUCTION request. -/
  | request (listId chunkId : ℕ) (stripeIds : List ℕ)
  /-- A RECONSTRUCTION_UNSEALED request for keys of a chunk. The objects that the server has are
  sent in batches. -/
  | requestUnsealed (listId chunkId : ℕ) (keys : List κ) (batches : List (List κ))
  /-- The SET_CHUNK response for a chunk is handled. -/
  | stored (md : Metadata)
  /-- The response to a BATCH_KEY_VALUES request is handled. -/
  | forwarded (keys : List κ)

namespace Reconstructing

def start : Reconstructing κ := ⟨none, [], [], [], [], ∅, ∅⟩

variable (s : Reconstructing κ)

/-- `handleReconstructionRequest`. -/
def handleReconstructionRequest (listId chunkId : ℕ) (stripeIds : List ℕ) : Reconstructing κ :=
  if stripeIds = [] then { s with stripeReports := s.stripeReports ++ [0] }
  else
    { s with
      entry := (insertReconstruction s.entry listId chunkId stripeIds.toFinset ∅).1
      storing := s.storing ++ stripeIds.dedup.map fun stripeId => ⟨listId, stripeId, chunkId⟩
      askedStripes := s.askedStripes ∪ stripeIds.toFinset }

/-- `handleReconstructionUnsealedRequest`. -/
def handleReconstructionUnsealedRequest (listId chunkId : ℕ) (keys : List κ)
    (batches : List (List κ)) : Reconstructing κ :=
  { s with
    entry := (insertReconstruction s.entry listId chunkId ∅ keys.toFinset).1
    forwarding := s.forwarding ++ batches
    askedKeys := s.askedKeys ∪ keys.toFinset }

/-- The end of `handleSetChunkResponse`. -/
def handleSetChunkResponse (md : Metadata) : Reconstructing κ :=
  match eraseStripe s.entry md.listId md.stripeId md.chunkId with
  | none => s
  | some (entry, found, remaining) =>
    { s with
      entry
      stripeReports := if found && remaining.chunks.items = ∅ then
        s.stripeReports ++ [remaining.chunks.total] else s.stripeReports }

/-- The loop of `handleBatchKeyValueResponse`, with what remained at the last key that was looked
up in the entry. -/
def eraseKeys (listId chunkId : ℕ) (keys : List κ) (entry : Option (PendingReconstruction κ))
    (last : Option (PendingReconstruction κ)) :
    Option (PendingReconstruction κ) × Option (PendingReconstruction κ) :=
  match keys with
  | [] => (entry, last)
  | key :: keys =>
    match eraseKey entry listId chunkId key with
    | none => eraseKeys listId chunkId keys entry last
    | some (entry, _, remaining) => eraseKeys listId chunkId keys entry (some remaining)

/-- `handleBatchKeyValueResponse`. -/
def handleBatchKeyValueResponse (keys : List κ) : Reconstructing κ :=
  match keys.head?, s.entry with
  | some key, some r =>
    -- Find the corresponding reconstruction request
    if key ∈ r.unsealed.items then
      let (entry, last) := eraseKeys r.listId r.chunkId keys s.entry none
      match last with
      | none => { s with entry }
      | some remaining =>
        { s with
          entry
          keyReports := if remaining.unsealed.items = ∅ then
            s.keyReports ++ [remaining.unsealed.total] else s.keyReports }
    else s
  | _, _ => s

def step : ReconstructAction κ → Reconstructing κ
  | .request listId chunkId stripeIds => s.handleReconstructionRequest listId chunkId stripeIds
  | .requestUnsealed listId chunkId keys batches =>
    s.handleReconstructionUnsealedRequest listId chunkId keys batches
  | .stored md =>
    if md ∈ s.storing then { s with storing := s.storing.erase md }.handleSetChunkResponse md
    else s
  | .forwarded keys =>
    if keys ∈ s.forwarding then
      { s with forwarding := s.forwarding.erase keys }.handleBatchKeyValueResponse keys
    else s

end Reconstructing

end MemEC.Server
