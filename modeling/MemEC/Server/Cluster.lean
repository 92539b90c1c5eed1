import MemEC.Common.StripeDecode
import MemEC.Lib.Broadcast
import MemEC.Server.ParityUpdates

/-!
# The servers of a stripe list

The data servers of a list fill their chunks with objects, change objects, and
seal the chunks. Each parity server is sent a SET of every object, and an
UPDATE or UPDATE_CHUNK for every change, and a SEAL_CHUNK request for every
chunk. What is under way to a parity server comes in any order. An object may
be changed after its SET has been answered by all servers.

A chunk server is picked by an operation; which open chunk of its buffer a SET
goes to is left to the operation as well. Deletions are left out: what they
leave in a data chunk is never sent to a parity server.
-/

namespace MemEC.Server

open MemEC.Lib MemEC.Common KeyValue ChunkUtil

variable {cfg : GlobalConfig}

/-- What a parity server is sent: a message about an object, or the change of a sealed chunk. -/
inductive ClusterMessage
  | object (m : Message)
  | updateChunk (stripeId chunkId offset : ℕ) (delta : List UInt8)

/-- The message is the SET of this object. -/
def ClusterMessage.isSetOf (o : Object cfg) : ClusterMessage → Bool
  | object (.set body _) => body = o.bytes
  | _ => false

namespace ParityChunkBuffer

variable (b : ParityChunkBuffer cfg)

/-- `ServerWorker::handleUpdateChunkRequest` for the parity chunk of this server, with
`checkGetChunk`. -/
def handleUpdateChunk (stripeId chunkId offset : ℕ) (delta : List UInt8) :
    Option (ParityChunkBuffer cfg) :=
  let chunk := (b.chunks.lookup stripeId).map ParityChunkWrapper.chunk
  let sealIndicator := (b.getWrapper stripeId).pending.map (!·)
  let b := { b with
    chunks := b.chunks.insert stripeId (b.getWrapper stripeId)
    getChunkBuffer := b.getChunkBuffer.insertBackup ⟨b.listId, stripeId, b.chunkId⟩ chunk
      sealIndicator }
  b.updateChunk stripeId chunkId offset delta false

/-- What the server does with what it is sent. -/
def receive (b : ParityChunkBuffer cfg) : ClusterMessage → Option (ParityChunkBuffer cfg)
  | .object m => b.handle m
  | .updateChunk stripeId chunkId offset delta =>
    b.handleUpdateChunk stripeId chunkId offset delta

end ParityChunkBuffer

/-! ## A data chunk -/

/-- A data chunk, before it is sealed and after it. `later` is what was sent since then, with the
SEAL_CHUNK request. -/
structure ClusterChunk (cfg : GlobalConfig) where
  chunk : OpenChunk cfg
  isSealed : Bool
  later : List ClusterMessage

/-- What a client asks a data server for. -/
inductive ClusterRequest (cfg : GlobalConfig)
  | set (o : Object cfg)
  | update (i valueUpdateOffset : ℕ) (valueUpdate : List UInt8)

namespace ClusterChunk

variable (d : ClusterChunk cfg)

/-- A chunk in which nothing is stored. -/
def init (cfg : GlobalConfig) (stripeId chunkId : ℕ) : ClusterChunk cfg :=
  ⟨.init cfg stripeId chunkId, false, []⟩

def ids : ℕ × ℕ := (d.chunk.stripeId, d.chunk.chunkId)

/-- All that was sent to a parity server. -/
def messages : List ClusterMessage := d.chunk.sent.map .object ++ d.later

/-- `ServerWorker::handleUpdateRequest` of the clients for an object in a sealed chunk, and the
UPDATE_CHUNK that `sendModifyChunkRequest` sends. -/
def updateSealed (e : ChunkHistory.Entry cfg) (valueUpdateOffset : ℕ)
    (valueUpdate : List UInt8) : ClusterChunk cfg :=
  let kv := deserialize cfg d.chunk.data e.offset
  let isLarge := LargeObjectUtil.isLarge cfg kv.keySize kv.valueSize
  let offset := u32 (e.offset + 4 + kv.keySize + valueUpdateOffset + if isLarge then 3 else 0)
  let (delta, data) := computeDelta d.chunk.data valueUpdate offset valueUpdate.length true
  { d with
    chunk := { d.chunk with data }
    later := d.later ++ [.updateChunk d.chunk.stripeId d.chunk.chunkId offset
      (delta.read 0 valueUpdate.length)] }

/-- One request. A sealed chunk takes no objects. -/
def handle : ClusterRequest cfg → ClusterChunk cfg
  | .set o => if d.isSealed then d else { d with chunk := d.chunk.step (.set o) }
  | .update i valueUpdateOffset valueUpdate =>
    if d.isSealed then
      match d.chunk.findAny i with
      | none => d
      | some e => d.updateSealed e valueUpdateOffset valueUpdate
    else { d with chunk := d.chunk.step (.update i valueUpdateOffset valueUpdate) }

/-- `DataChunkBuffer::flush` seals the chunk, once. -/
def sealChunk (listId : ℕ) : ClusterChunk cfg :=
  if d.isSealed then d
  else { d with
    isSealed := true
    later := [.object (.sealChunk (d.chunk.request listId))] }

/-- The data of the chunk as the parity servers have to know it. -/
def sealedData : Memory := if d.isSealed then d.chunk.data else 0

end ClusterChunk

/-! ## The servers together -/

/-- The data chunks and the parity servers. -/
structure Cluster (c : Coding cfg) where
  listId : ℕ
  chunks : List (ClusterChunk cfg)
  parities : List (Receiver (ParityChunkBuffer cfg) ClusterMessage)

/-- What happens next: a request comes to a data chunk, a data chunk is sealed, or a message comes to
a parity server. -/
inductive ClusterAction (cfg : GlobalConfig)
  | request (i : ℕ) (r : ClusterRequest cfg)
  | sealChunk (i : ℕ)
  | deliver (p j : ℕ)

namespace Cluster

variable {c : Coding cfg} (s : Cluster c)

/-- Empty data chunks with these ids, and parity servers that have not received anything. -/
def start (c : Coding cfg) (listId : ℕ) (ids : List (ℕ × ℕ)) : Cluster c where
  listId := listId
  chunks := ids.map fun p => .init cfg p.1 p.2
  parities := (List.range c.parityChunkCount).map fun parity => ⟨.fresh c listId parity, []⟩

/-- All that was sent to each parity server. -/
def messages : List ClusterMessage := s.chunks.flatMap ClusterChunk.messages

/-- The objects that were stored. -/
def items : List (Item cfg) := s.chunks.flatMap fun d => d.chunk.items

/-- A data chunk changes, and what it sends goes to all parity servers. -/
def modifyChunk (i : ℕ) (f : ClusterChunk cfg → ClusterChunk cfg) : Cluster c :=
  match s.chunks[i]? with
  | none => s
  | some d =>
    { s with
      chunks := s.chunks.set i (f d)
      parities := s.parities.map fun r => r.post ((f d).messages.drop d.messages.length) }

/-- One action, `none` for a failed assertion. -/
def step (s : Cluster c) : ClusterAction cfg → Option (Cluster c)
  | .request i r => some (s.modifyChunk i fun d => d.handle r)
  | .sealChunk i => some (s.modifyChunk i fun d => d.sealChunk s.listId)
  | .deliver p j =>
    match s.parities[p]? with
    | none => some s
    | some r => (r.deliver ParityChunkBuffer.receive j).map fun r' =>
        { s with parities := s.parities.set p r' }

/-- The key of a new object is not empty and no key of the server maps yet. An update stays inside
the value of an object whose SET has come to all parity servers. -/
def Allowed (s : Cluster c) : ClusterAction cfg → Prop
  | .request _ (.set o) => o.key ≠ [] ∧ ∀ x ∈ s.items, x.key.ident ≠ o.mapKey.ident
  | .request i (.update j valueUpdateOffset valueUpdate) =>
    ∀ d ∈ s.chunks[i]?, ∀ e ∈ d.chunk.findAny j,
      valueUpdateOffset + valueUpdate.length ≤ e.object.payload.length ∧
        ∀ r ∈ s.parities, ∀ m ∈ r.inbox, m.isSetOf e.object = false
  | _ => True

/-- No message is under way. -/
def Quiet : Prop := ∀ r ∈ s.parities, r.inbox = []

/-- The data of a sealed chunk. A chunk that is not sealed counts as zero in its stripe. -/
def data (stripeId chunkId : ℕ) : Memory :=
  ((s.chunks.find? fun d => d.ids = (stripeId, chunkId)).map ClusterChunk.sealedData).getD 0

/-- A chunk of a stripe, as a server holds it. -/
def stripe (stripeId i : ℕ) : Memory :=
  if i < c.dataChunkCount then s.data stripeId i
  else (s.parities[i - c.dataChunkCount]?.map fun r =>
    (r.state.getWrapper stripeId).chunk).getD 0

instance : DecidablePred (Allowed (c := c) s) := fun a => by
  unfold Allowed
  split <;> infer_instance

end Cluster

end MemEC.Server
