import MemEC.Common.CodingContract

/-!
# Collecting the chunks of a stripe

A server that reconstructs lost chunks asks `k` servers for theirs and merges
the answers, in whatever order they arrive, into the stripe it decodes. A data
chunk may or may not be sealed, and a parity chunk says which data chunks have
been sealed into it.

Where the C++ code would follow a null pointer or the end of the pending set,
index behind an array or fail an assertion, the model stops with a `Fault`.
-/

namespace MemEC.Server

open MemEC.Lib MemEC.Common

/-- What C++ leaves undefined, and failed assertions. -/
inductive Fault
  | nullPointer
  | outOfRange
  | endIterator
  | assertion
  deriving DecidableEq, Repr

/-- The target of a chunk pointer: `Coding::zeros` or any other chunk. -/
inductive ChunkRef
  | zeros
  | chunk (data : Memory)

/-- An entry of `pending->serverPeers.getChunk`. No chunk is a null pointer. -/
structure ChunkRequest where
  chunkId : ℕ
  chunk : Option ChunkRef
  isSealed : Bool
  self : Bool
  sealIndicator : Option (List Bool)

/-- A GET_CHUNK response. The data of a chunk that is not sealed is empty, and so are the seal
indicators of a data chunk. -/
inductive GetChunkResponse
  | success (chunkId offset : ℕ) (data : List UInt8) (sealIndicator : List Bool)
  | failure (chunkId : ℕ)

/-- The chunk of this server: whether it is sealed, and the copy that `getChunkBuffer` keeps. -/
structure OwnChunk where
  isSealed : Bool
  data : Memory
  backup : Option Memory

/-- `chunks` and `sealIndicators` of a worker while it handles a response. Row `j` of
`sealIndicators` is that of the `j`-th parity chunk, row `parityChunkCount` is `trueSeal`. -/
structure StripeBuffer where
  chunks : ℕ → Option ChunkRef
  sealIndicators : ℕ → Option (List Bool)
  trueSeal : ℕ → Bool
  pending : ℕ
  selfIt : Option ℕ

/-- What a worker hands over to `Coding::decode`, and what it gets back. -/
structure DecodedStripe where
  chunks : ℕ → Memory
  trueSeal : ℕ → Bool

/-- How a response is dealt with. -/
inductive GetChunkOutcome
  | discarded
  | waiting
  | askedAgain (chunkIds : List ℕ)
  | decoded (stripe : DecodedStripe)

/-- The pending requests of one reconstruction, and what lasts in the worker from one response to
the next: the row `trueSeal` and the bytes of `Coding::zeros`. -/
structure GatheringServer where
  getChunk : List ChunkRequest
  trueSeal : ℕ → Bool
  zeros : Memory

/-- Reads entry `i` of a row of `sealIndicators`. -/
def readSeal (row : Option (List Bool)) (i : ℕ) : Except Fault Bool :=
  match row with
  | none => .error .nullPointer
  | some row => if i < row.length then .ok (row.getD i false) else .error .outOfRange

namespace StripeBuffer

/-- The `j`-th parity chunk is there and is not `Coding::zeros`. -/
def holdsParity (b : StripeBuffer) (k j : ℕ) : Bool :=
  match b.chunks (k + j) with
  | some (.chunk _) => true
  | _ => false

/-- The `j`-th parity chunk is there. -/
def hasParity (b : StripeBuffer) (k j : ℕ) : Bool := (b.chunks (k + j)).isSome

def setChunk (b : StripeBuffer) (i : ℕ) (chunk : ChunkRef) : StripeBuffer :=
  { b with chunks := Function.update b.chunks i (some chunk) }

def setTrueSeal (b : StripeBuffer) (i : ℕ) (isSealed : Bool) : StripeBuffer :=
  { b with trueSeal := Function.update b.trueSeal i isSealed }

def setSealIndicator (b : StripeBuffer) (j : ℕ) (row : Option (List Bool)) : StripeBuffer :=
  { b with sealIndicators := Function.update b.sealIndicators j row }

end StripeBuffer

/-- The bytes a chunk pointer leads to. -/
def ChunkRef.content (zeros : Memory) : ChunkRef → Memory
  | .zeros => zeros
  | .chunk data => data

def GetChunkResponse.chunkId : GetChunkResponse → ℕ
  | success chunkId _ _ _ => chunkId
  | failure chunkId => chunkId

variable (k : ℕ)

/-- The branch of the first loop of `handleGetChunkResponse` for the request that is answered. -/
def storeResponse (r : GetChunkResponse) (b : StripeBuffer) (req : ChunkRequest) :
    Except Fault (StripeBuffer × ChunkRequest) :=
  match r with
  | .success chunkId offset data sealIndicator =>
    let isSealed := !data.isEmpty
    let chunk := if isSealed then .chunk (Memory.place offset data) else .zeros
    let req := { req with chunk := some chunk, isSealed := isSealed }
    if chunkId < k then .ok ((b.setTrueSeal chunkId isSealed).setChunk chunkId chunk, req)
    else if sealIndicator.isEmpty then .error .assertion
    else .ok ((b.setSealIndicator (chunkId - k) (some sealIndicator)).setChunk chunkId chunk,
      { req with sealIndicator := some sealIndicator })
  | .failure chunkId =>
    -- the row has an entry for each data chunk
    if chunkId < k then .ok ((b.setTrueSeal chunkId false).setChunk chunkId .zeros,
      { req with chunk := some .zeros, isSealed := false })
    else .error .outOfRange

/-- The body of the first loop of `handleGetChunkResponse`. -/
def visitRequest (r : GetChunkResponse) (b : StripeBuffer) (req : ChunkRequest) :
    Except Fault (StripeBuffer × ChunkRequest) :=
  if req.chunkId = r.chunkId then storeResponse k r b req
  else if req.self then
    .ok ({ b.setChunk req.chunkId .zeros with selfIt := some req.chunkId }, req)
  else
    match req.chunk with
    | none => .ok ({ b with pending := b.pending + 1 }, req)
    | some chunk =>
      let b := b.setChunk req.chunkId chunk
      if req.chunkId < k then .ok (b.setTrueSeal req.chunkId req.isSealed, req)
      else .ok (b.setSealIndicator (req.chunkId - k) req.sealIndicator, req)

/-- The first loop of `handleGetChunkResponse`. -/
def collectChunks (r : GetChunkResponse) (b : StripeBuffer) :
    List ChunkRequest → Except Fault (StripeBuffer × List ChunkRequest)
  | [] => .ok (b, [])
  | req :: reqs => do
    let (b, req) ← visitRequest k r b req
    let (b, reqs) ← collectChunks r b reqs
    return (b, req :: reqs)

/-- The chunks to be reconstructed count as sealed. -/
def markLost (b : StripeBuffer) : StripeBuffer :=
  { b with trueSeal := fun i => if i < k ∧ (b.chunks i).isNone then true else b.trueSeal i }

/-- Row `parityChunkCount + 1` of `sealIndicators`: what is sealed in some surviving parity
chunk. -/
def sealedAtParities (m : ℕ) (b : StripeBuffer) : Except Fault (ℕ → Bool) :=
  (List.range m).foldlM (fun known j =>
    if b.holdsParity k j then
      (List.range k).foldlM (fun known i => do
        let isSealed ← readSeal (b.sealIndicators j) i
        return Function.update known i (known i || isSealed)) known
    else .ok known) fun _ => false

/-- The chunks that are retrieved again, as a parity chunk has them sealed. -/
def chunksToAskAgain (m : ℕ) (b : StripeBuffer) (known : ℕ → Bool) : Except Fault (List ℕ) :=
  if (List.range m).any (b.holdsParity k) && 0 < k then
    match b.selfIt with
    | none => .error .endIterator
    | some self => .ok ((List.range k).filter fun i =>
        i ≠ self && (b.chunks i).isSome && known i && !b.trueSeal i)
  else .ok []

/-- The chunk of this server is looked at when all the others are there. -/
def takeOwnChunk (own : Option OwnChunk) (b : StripeBuffer) : Except Fault StripeBuffer :=
  match b.selfIt with
  | none => .ok b
  | some self =>
    if self < k then
      match own with
      | none => .ok ((b.setTrueSeal self false).setChunk self .zeros)
      | some own =>
        if own.isSealed then
          .ok ((b.setTrueSeal self true).setChunk self (.chunk (own.backup.getD own.data)))
        else .ok ((b.setTrueSeal self false).setChunk self .zeros)
    else .error .assertion

/-- The loop `Check seal indicator` of `handleGetChunkResponse`. -/
def sealsAgree (m : ℕ) (b : StripeBuffer) : Except Fault Bool :=
  (List.range k).allM fun i => (List.range m).allM fun j =>
    if b.holdsParity k j then do
      let isSealed ← readSeal (b.sealIndicators j) i
      return isSealed == b.trueSeal i
    else .ok true

/-! ## `Coding::forceSeal` -/

/-- How many parity chunks there are, how many have data chunk `j` sealed, and what the last of
them says. -/
def countSeals (m : ℕ) (b : StripeBuffer) (j : ℕ) : Except Fault (ℕ × ℕ × Option Bool) :=
  (List.range m).foldlM (fun acc i =>
    if b.hasParity k i then do
      let isSealed ← readSeal (b.sealIndicators i) j
      return (acc.1 + 1, if isSealed then acc.2.1 + 1 else acc.2.1, some isSealed)
    else .ok acc) (0, 0, none)

/-- The body of the first loop: a data chunk that no parity chunk has is dropped. -/
def followParities (m : ℕ) (b : StripeBuffer) (j : ℕ) : Except Fault StripeBuffer := do
  let (total, count, indicator) ← countSeals k m b j
  if (count = 0 ∨ count = total) ∧ indicator ≠ some (b.trueSeal j) then
    if b.trueSeal j then return (b.setChunk j .zeros).setTrueSeal j false
    else throw .assertion
  else return b

/-- The body of the second loop: data chunk `j` is sealed into the `i`-th parity chunk. The
parity chunk may be `Coding::zeros`, whose bytes are changed then. -/
def sealIntoParity (cfg : GlobalConfig)
    (encode : (ℕ → Memory) → Memory → ℕ → ℕ → ℕ → Memory) (i : ℕ) (s : StripeBuffer × Memory)
    (j : ℕ) : Except Fault (StripeBuffer × Memory) := do
  let isSealed ← readSeal (s.1.sealIndicators i) j
  if isSealed = s.1.trueSeal j then return s
  else if s.1.trueSeal j then
    match s.1.chunks j, s.1.chunks (k + i) with
    | some chunk, some parity =>
      let tmpChunks := fun l => if l = j then chunk.content s.2 else s.2
      let tmpParityChunk := encode tmpChunks 0 i 0 cfg.chunkSize
      let row := (s.1.sealIndicators i).map fun row => row.set j true
      let sum := (parity.content s.2).xorInto 0 tmpParityChunk 0 cfg.chunkSize
      match parity with
      | .zeros => return (s.1.setSealIndicator i row, sum)
      | .chunk _ => return ((s.1.setChunk (k + i) (.chunk sum)).setSealIndicator i row, s.2)
    | _, _ => throw .nullPointer
  else throw .assertion

/-- `Coding::forceSeal`. -/
def forceSeal (cfg : GlobalConfig) (encode : (ℕ → Memory) → Memory → ℕ → ℕ → ℕ → Memory) (m : ℕ)
    (b : StripeBuffer) (zeros : Memory) : Except Fault (StripeBuffer × Memory) := do
  let b ← (List.range k).foldlM (followParities k m) b
  (List.range m).foldlM (fun s i =>
    if s.1.hasParity k i then (List.range k).foldlM (sealIntoParity k cfg encode i) s
    else .ok s) (b, zeros)

/-! ## The handler -/

/-- The buffers for the reconstructed chunks are cleared and the stripe is decoded. There is a
buffer for each data chunk. -/
def decodeStripe {cfg : GlobalConfig} {m : ℕ} (c : CodingContract cfg k m) (b : StripeBuffer)
    (zeros : Memory) : Except Fault DecodedStripe :=
  let chunkStatus := fun i => (b.chunks i).isSome
  if k < (lostChunks (k + m) chunkStatus).length then .error .outOfRange
  else
    let chunks := fun i => ((b.chunks i).map (ChunkRef.content zeros)).getD 0
    .ok ⟨(c.decode chunks chunkStatus).2, b.trueSeal⟩

/-- `ServerWorker::handleGetChunkResponse` up to the decoding, where `own` is what the server
finds of its own chunk of the stripe. -/
def handleGetChunkResponse {cfg : GlobalConfig} {k m : ℕ} (c : CodingContract cfg k m)
    (own : Option OwnChunk) (s : GatheringServer) (r : GetChunkResponse) :
    Except Fault (GatheringServer × GetChunkOutcome) := do
  if s.getChunk.isEmpty then return (s, .discarded)
  let (b, reqs) ← collectChunks k r ⟨fun _ => none, fun _ => none, s.trueSeal, 0, none⟩ s.getChunk
  if b.pending ≠ 0 then return (⟨reqs, b.trueSeal, s.zeros⟩, .waiting)
  let b := markLost k b
  let known ← sealedAtParities k m b
  let again ← chunksToAskAgain k m b known
  if again ≠ [] then return (⟨reqs, b.trueSeal, s.zeros⟩, .askedAgain again)
  let b ← takeOwnChunk k own b
  let valid ← sealsAgree k m b
  let (b, zeros) ← if valid then pure (b, s.zeros) else forceSeal k cfg c.encode m b s.zeros
  let stripe ← decodeStripe k c b zeros
  return (⟨[], b.trueSeal, zeros⟩, .decoded stripe)

end MemEC.Server
