import MemEC.Lib.Multimap
import MemEC.Server.ParityChunkBuffer

/-!
# Backups of parity deltas

A parity server keeps the delta of every update that a client has caused, under
the timestamp of the update, until the client acknowledges it or has it
reverted. To revert an update its delta is XOR-ed once more into the stored
object or, when there is none, into the parity chunk.

`ParityServer` has the parity chunk buffers of a server and the backup of one
client. The removal of a backup reads the value behind the last timestamp of a
`std::set`. The standard does not say what is there, so this value is an
argument, `endWord`.
-/

namespace MemEC.Server

open MemEC.Lib MemEC.Common

/-- Where a delta comes from. -/
structure DeltaTag where
  requestId : ℕ
  dataServerId : ℕ
  timestamp : ℕ

/-- `BackupDelta`, without the parity servers that a data server notes in it. -/
structure BackupDelta extends DeltaTag where
  key : List UInt8
  data : List UInt8
  valueOffset : ℕ
  chunkOffset : ℕ
  metadata : Metadata
  isChunkDelta : Bool

/-- `ServerBackup::parityUpdate`. -/
abbrev ParityUpdate := Multimap fun d : BackupDelta => d.timestamp

namespace ParityUpdate

/-- The condition under which `REMOVE_ITEMS` does not skip an entry. -/
def removes (timestamps : List ℕ) (dataServerId : ℕ) (d : BackupDelta) : Bool :=
  !(dataServerId ≠ 0 && (d.dataServerId ≠ dataServerId ||
    !timestamps.isEmpty && d.timestamp ∉ timestamps))

/-- `removeParityUpdate` for a set of timestamps, with what `*timestamps.end()` reads. -/
def removeParityUpdate (endWord : ℕ) (map : ParityUpdate) (timestamps : List ℕ)
    (dataServerId : ℕ) : ParityUpdate × List BackupDelta :=
  let fromTimestamp := timestamps.min?.getD endWord
  if endWord < fromTimestamp then
    -- from --> end of map
    let r := map.remove (fun d => d.timestamp < fromTimestamp) (fun _ => true)
      (removes timestamps dataServerId)
    -- start of map --> to
    let r' := r.1.remove (fun _ => false) (fun d => d.timestamp ≤ endWord)
      (removes timestamps dataServerId)
    (r'.1, r.2 ++ r'.2)
  else
    map.remove (fun d => d.timestamp < fromTimestamp) (fun d => d.timestamp ≤ endWord)
      (removes timestamps dataServerId)

/-- `removeParityUpdate` and `removeParityDelete` for an interval of timestamps. -/
def removeInterval (map : ParityUpdate) (first last dataServerId : ℕ) :
    ParityUpdate × List BackupDelta :=
  Multimap.removeInterval map first last (removes [] dataServerId)

end ParityUpdate

/-- An UPDATE_CHUNK request to a parity server. -/
structure ChunkUpdateHeader where
  stripeId : ℕ
  chunkId : ℕ
  offset : ℕ
  delta : List UInt8

variable (cfg : GlobalConfig)

structure ParityServer where
  buffers : ℕ → ParityChunkBuffer cfg
  parityUpdate : ParityUpdate

/-- A message for a list. Nothing is backed up for the client from the messages `other`. -/
inductive ParityMessage
  | other (listId : ℕ) (m : Message)
  | update (tag : DeltaTag) (listId : ℕ) (header : ChunkKeyValueUpdateHeader)
  | updateChunk (tag : DeltaTag) (listId : ℕ) (header : ChunkUpdateHeader)

namespace ParityChunkBuffer

variable {cfg} (b : ParityChunkBuffer cfg)

/-- The buffer in `handleUpdateChunkRequest`. -/
def handleUpdateChunkRequest (header : ChunkUpdateHeader) : Option (ParityChunkBuffer cfg) :=
  let chunk := (b.chunks.lookup header.stripeId).map ParityChunkWrapper.chunk
  let sealIndicator := (b.getWrapper header.stripeId).pending.map (!·)
  let b := { b with
    chunks := b.chunks.insert header.stripeId (b.getWrapper header.stripeId)
    getChunkBuffer := b.getChunkBuffer.insertBackup ⟨b.listId, header.stripeId, b.chunkId⟩ chunk
      sealIndicator }
  b.updateChunk header.stripeId header.chunkId header.offset header.delta false

/-- The loop over `update` in `handleRevertDelta`. The key is looked up as that of a plain object. -/
def revert (it : BackupDelta) : Option (ParityChunkBuffer cfg) :=
  if it.isChunkDelta then
    b.updateChunk it.metadata.stripeId it.metadata.chunkId it.chunkOffset it.data false
  else
    let (b, ret) := b.updateKeyValue (.plain it.key) it.valueOffset it.data
    -- apply to chunk if seal after backup
    if ret then some b
    else b.updateChunk it.metadata.stripeId it.metadata.chunkId it.chunkOffset it.data false

end ParityChunkBuffer

/-- The delta of an UPDATE. The split offset in the key of a split is not kept. -/
def ChunkKeyValueUpdateHeader.backup (header : ChunkKeyValueUpdateHeader) (tag : DeltaTag)
    (listId : ℕ) (isChunkDelta : Bool) : BackupDelta where
  toDeltaTag := tag
  key := header.key.data.take header.key.size
  data := header.valueUpdate
  valueOffset := header.valueUpdateOffset
  chunkOffset := header.chunkUpdateOffset
  metadata := ⟨listId, header.stripeId, header.chunkId⟩
  isChunkDelta := isChunkDelta

/-- The delta of an UPDATE_CHUNK. -/
def ChunkUpdateHeader.backup (header : ChunkUpdateHeader) (tag : DeltaTag) (listId : ℕ) :
    BackupDelta where
  toDeltaTag := tag
  key := []
  data := header.delta
  valueOffset := 0
  chunkOffset := header.offset
  metadata := ⟨listId, header.stripeId, header.chunkId⟩
  isChunkDelta := true

namespace ParityServer

variable {cfg} (s : ParityServer cfg)

/-- The server with another buffer for a list. -/
def setBuffer (listId : ℕ) (b : ParityChunkBuffer cfg) : ParityServer cfg :=
  { s with buffers := Function.update s.buffers listId b }

def step (s : ParityServer cfg) : ParityMessage → Option (ParityServer cfg)
  | .other listId m => ((s.buffers listId).handle m).map (s.setBuffer listId)
  | .update tag listId header =>
    let ret := ((s.buffers listId).updateKeyValue header.key header.valueUpdateOffset
      header.valueUpdate).2
    ((s.buffers listId).handleUpdateRequest header).map fun b =>
      { s.setBuffer listId b with
        parityUpdate := s.parityUpdate.insert (header.backup tag listId (!ret)) }
  | .updateChunk tag listId header =>
    ((s.buffers listId).handleUpdateChunkRequest header).map fun b =>
      { s.setBuffer listId b with
        parityUpdate := s.parityUpdate.insert (header.backup tag listId) }

/-- The state after the messages, with `none` for a failed assertion. -/
def after (s : ParityServer cfg) (ms : List ParityMessage) : Option (ParityServer cfg) :=
  tryRun step s ms

/-- The loop over `update` in `handleRevertDelta`. -/
def revertAll (s : ParityServer cfg) (update : List BackupDelta) : Option (ParityServer cfg) :=
  tryRun (fun s it => ((s.buffers it.metadata.listId).revert it).map
    (s.setBuffer it.metadata.listId)) s update

/-- `handleRevertDelta`, for a request with `keyCount` keys of SETs, when the instance IDs of the
server's peers are `peers`. The result has the timestamps that the client is answered with. -/
def handleRevertDelta (endWord : ℕ) (peers : List ℕ) (timestamps : List ℕ) (keyCount targetId : ℕ) :
    Option (ParityServer cfg × List ℕ) :=
  if timestamps.isEmpty && keyCount = 0 && targetId = 0 then some (s, [])
  else if targetId ∉ peers then some (s, [])
  else
    let r := s.parityUpdate.removeParityUpdate endWord timestamps targetId
    ({ s with parityUpdate := r.1 }.revertAll r.2).map fun s =>
      (s, r.2.map fun d : BackupDelta => d.timestamp)

end ParityServer

end MemEC.Server
