import MemEC.Common.DegradedProtocol
import MemEC.Server.DegradedMap
import MemEC.Server.DegradedWaiting
import MemEC.Server.Map

/-!
# Degraded reads

A server that gets a degraded request for data that it does not have puts the
request on a waiting list of the degraded map. The first request for a sealed
stripe lets it fetch chunks from surviving servers, and the first one for a key
in an unsealed chunk lets it fetch the object, which it looks for locally when
it is a surviving server itself.

The pending sets have the entries of one call. Of the degraded map only the
waiting lists are changed here. A forwarded object that goes to the server
itself ends the waiting for its key at once, and what is then done for the
operations that waited is left out.
-/

namespace MemEC.Server

open MemEC.Lib MemEC.Common

/-- `ServerPeerSocket`. -/
structure PeerSocket where
  id : ℕ
  self : Bool
  ready : Bool
deriving DecidableEq

/-- What a server has besides the waiting lists. -/
structure ReadServer (cfg : GlobalConfig) (shape : IndexShape) where
  instanceId : ℕ
  dataChunkCount : ℕ
  parityChunkCount : ℕ
  /-- `stripeList->get( listId, chunkId )`. -/
  sockets : ℕ → ℕ → PeerSocket
  /-- `chunkBuffer->at( listId )->getChunkId()`. -/
  ownChunkId : ℕ → ℕ
  m : Memory
  keys : CuckooHash shape.toTableShape
  /-- The keys of `chunkBuffer->at( listId )`. A `DataChunkBuffer` finds none. -/
  buffered : ℕ → KeyMap Memory
  dmap : DegradedMap
  /-- The assertion of `performDegradedRead`. -/
  eq_ownChunkId : ∀ listId chunkId, (sockets listId chunkId).self = true →
    chunkId = ownChunkId listId
  key_buffered : ∀ listId key keyValue, (buffered listId).find key = some keyValue →
    (KeyValue.key cfg keyValue 0).ident = key.ident

/-- `opcode`, with `key` and `keyValueUpdate`. -/
inductive ReadOp
  | none
  | get (key : Key)
  | update (key : Key) (offset : ℕ) (valueUpdate : List UInt8)
  | delete (key : Key)

def ReadOp.key : ReadOp → Option Key
  | none => .none
  | get key => some key
  | update key _ _ => some key
  | delete key => some key

/-- The arguments of `performDegradedRead`. -/
structure ReadRequest where
  op : ReadOp
  parentInstanceId : ℕ
  parentRequestId : ℕ
  listId : ℕ
  stripeId : ℕ
  chunkId : ℕ
  isSealed : Bool
  redirections : List Redirection
  ongoingAtChunk : ℕ
  survivingChunkIds : List ℕ
  /-- The bytes that stand behind the key in memory. -/
  behind : List UInt8
  length_behind : behind.length = 3

inductive ReadMessage
  | get (socket : PeerSocket) (requestId listId chunkId : ℕ) (key : Key)
  | getChunk (socket : PeerSocket) (requestId : ℕ) (metadata : Metadata)
  | forwardKey (socket : PeerSocket) (requestId : ℕ) (metadata : Metadata) (op : ReadOp)
      (key value : List UInt8)

/-- An object of the key map, or one of a parity chunk buffer. -/
inductive LocalObject
  | stored (ptr : ℕ)
  | buffered (keyValue : Memory)

/-- An entry of the `GET_CHUNK` pending set. -/
structure PendingChunk where
  requestId : ℕ
  socket : PeerSocket
  metadata : Metadata

/-- The waiting lists, the last request id, the entries of the pending sets `DEGRADED_OPS`,
`GET_CHUNK` and `GET`, the messages, the keys of the failures that were returned to the client, and
what the local lookup has found. -/
structure ReadState where
  waiting : DegradedWaiting
  lastId : ℕ
  isReconstructed : Bool
  ops : List (ℕ × ReadRequest)
  getChunks : List PendingChunk
  gets : List (ℕ × PeerSocket × Key)
  sent : List ReadMessage
  failures : List Key
  located : Option (Option LocalObject)

/-- The state when `performDegradedRead` is called. -/
def ReadState.start (waiting : DegradedWaiting) (lastId : ℕ) (isReconstructed : Bool) : ReadState :=
  ⟨waiting, lastId, isReconstructed, [], [], [], [], [], none⟩

/-- A null pointer is followed: the socket of a server, or the key. -/
inductive ReadFailure
  | nullSocket
  | nullKey
deriving DecidableEq

/-- The returned value and the state. -/
abbrev ReadResult := Except ReadFailure (Bool × ReadState)

variable {cfg : GlobalConfig} {shape : IndexShape} (srv : ReadServer cfg shape) (req : ReadRequest)

/-! ## The servers -/

/-- `dataServerSockets` and behind them `parityServerSockets`, without the lost servers. -/
def ReadServer.surviving (i : ℕ) : Option PeerSocket :=
  if req.redirections.any fun e => e.original.2 = i then none
  else some (srv.sockets req.listId i)

/-- How many entries are for parity chunks. -/
def ReadServer.lostParity : ℕ :=
  req.redirections.countP fun e => srv.dataChunkCount ≤ e.original.2

/-- The server to ask for an object of an unsealed chunk: `none` when no parity server survives, and
`some none` for a null pointer. -/
def ReadServer.unsealedSocket : Option (Option PeerSocket) :=
  let parity :=
    if sub32 srv.parityChunkCount (srv.lostParity req) = 0 then none
    else some ((List.range srv.parityChunkCount).findSome? fun i => srv.surviving req
      (srv.dataChunkCount + u32 (req.parentRequestId + i) % srv.parityChunkCount))
  match srv.surviving req req.chunkId with
  | some socket => if socket.self then some (some socket) else parity
  | none => parity

/-! ## The local lookup -/

namespace LocalObject

/-- The memory of the object, and where it starts. -/
def place : LocalObject → Memory × ℕ
  | stored ptr => (srv.m, ptr)
  | buffered keyValue => (keyValue, 0)

def header (o : LocalObject) : KeyValue.Deserialized :=
  KeyValue.deserialize cfg (o.place srv).1 (o.place srv).2

def key (o : LocalObject) : List UInt8 :=
  (o.place srv).1.read (o.header srv).key (o.header srv).keySize

def value (o : LocalObject) : List UInt8 :=
  (o.place srv).1.read (o.header srv).value (o.header srv).valueSize

/-- The copy that is put into the degraded map. -/
def copy (o : LocalObject) : Memory :=
  KeyValue.dup cfg (o.key srv) (o.header srv).keySize (o.value srv) (o.header srv).valueSize
    (o.header srv).splitOffset

end LocalObject

/-- `findObject` of the plain form of a large key, or `findLargeObject` of a plain key with what
stands behind it, and the key that is there afterwards. -/
def ReadServer.findInMap (key : Key) : Option ℕ × Key :=
  if key.isLarge then
    match Map.findObject cfg srv.m srv.keys (key.data.take key.size) with
    | some ptr => (some ptr, KeyValue.key cfg srv.m ptr)
    | none => (none, .plain (key.data.take key.size))
  else
    have hlen : 3 ≤ (key.data ++ req.behind).length := by
      rw [List.length_append, req.length_behind]
      exact Nat.le_add_left 3 _
    match Map.findLargeObject cfg srv.m srv.keys (key.data ++ req.behind) hlen with
    | some ptr => (some ptr, KeyValue.key cfg srv.m ptr)
    | none => (none, splitKey (key.data ++ req.behind) hlen)

/-- The lookup in the local key-value store. -/
def ReadServer.findLocally (key : Key) : Option LocalObject × Key :=
  match srv.findInMap req key with
  | (some ptr, mykey) => (some (.stored ptr), mykey)
  | (none, mykey) => (((srv.buffered req.listId).find mykey).map .buffered, mykey)

/-! ## The steps of a read -/

variable (st : ReadState)

/-- The chunks that both loops behind `force_reconstruct_chunks` select. -/
def ReadServer.selectChunks : List (ℕ × PeerSocket) :=
  (req.survivingChunkIds.filterMap fun i => (srv.surviving req i).bind fun socket =>
    if socket.self || socket.ready then some (i, socket) else none).take srv.dataChunkCount

/-- What stands behind `force_reconstruct_chunks`. -/
def ReadServer.fetchChunks (requestId : ℕ) : Bool × ReadState :=
  let selected := srv.selectChunks req
  (srv.dataChunkCount ≤ selected.length,
    { st with
      getChunks := st.getChunks ++ selected.map fun (i, socket) =>
        ⟨requestId, socket, ⟨req.listId, req.stripeId, i⟩⟩
      sent := st.sent ++ (selected.filter fun (_, socket) => !socket.self).map fun (i, socket) =>
        .getChunk socket requestId ⟨req.listId, req.stripeId, i⟩ })

/-- The read from a sealed chunk. -/
def ReadServer.readSealed : Bool × ReadState :=
  let requestId := st.lastId + 1
  let r := st.waiting.insertDegradedChunk req.listId req.stripeId req.chunkId
    (some (srv.instanceId, requestId))
  let st := { st with lastId := requestId, ops := st.ops ++ [(requestId, req)], waiting := r.1 }
  if req.ongoingAtChunk ≠ srv.ownChunkId req.listId then
    (true, { st with isReconstructed := false })
  else
    match r.2 with
    | .start => srv.fetchChunks req { st with isReconstructed := false } requestId
    | .finished => (false, { st with isReconstructed := true })
    | _ => (true, { st with isReconstructed := false })

/-- `eraseDegradedOp`. -/
def ReadState.eraseDegradedOp (instanceId : ℕ) (st : ReadState) (pid : PendingOp) : ReadState :=
  { st with ops := st.ops.eraseP fun e => pid.instanceId = instanceId && pid.requestId = e.1 }

/-- `handleForwardKeyRequest` and `handleForwardKeyResponse` of the server for its own request. -/
def ReadServer.forwardKeyToSelf (key : List UInt8) : ReadState :=
  let r := st.waiting.deleteDegradedKey (.plain key) true
  match r.2 with
  | .returned (some pids) => pids.foldl (ReadState.eraseDegradedOp srv.instanceId)
      { st with waiting := r.1 }
  | _ => { st with waiting := r.1 }

/-- The object goes to a server that it is redirected to. -/
def ReadServer.forwardKey (requestId : ℕ) (o : LocalObject) (st : ReadState) (e : Redirection) :
    ReadState :=
  let socket := srv.sockets e.target.1 e.target.2
  if socket.self then srv.forwardKeyToSelf st (o.key srv)
  else { st with sent := st.sent ++ [.forwardKey socket requestId
    ⟨req.listId, req.stripeId, e.original.2⟩ req.op (o.key srv) (o.value srv)] }

/-- The object that is found locally, unless it is to be put into the degraded map and cannot be. The
original data server, of the socket, does not put it there. -/
def ReadServer.objectToForward (socket : PeerSocket) (key : Key) : Option LocalObject :=
  (srv.findLocally req key).1.filter fun o =>
    match req.op with
    | .delete _ => true
    | _ => socket.self ||
      (srv.dmap.insertValue cfg (o.copy srv) ⟨req.listId, req.stripeId, req.chunkId⟩).2

/-- Reads an object from the local key-value store. -/
def ReadServer.readLocally (key : Key) (requestId : ℕ) : ReadResult :=
  let (found, mykey) := srv.findLocally req key
  let st := { st with located := some found }
  match srv.surviving req req.chunkId with
  | none => .error .nullSocket
  | some socket =>
    match srv.objectToForward req socket key with
    | some o => .ok (true, req.redirections.foldl (srv.forwardKey req requestId o)
        { st with ops := st.ops ++ [(requestId, req)] })
    | none => .ok (false, { st with failures := st.failures ++ [mykey] })

/-- Reads an object from a surviving parity server. -/
def ReadRequest.readFrom (socket : PeerSocket) (key : Key) (requestId : ℕ) : Bool × ReadState :=
  (true, { st with
    gets := st.gets ++ [(requestId, socket, key)]
    sent := st.sent ++ [.get socket requestId req.listId req.chunkId key] })

/-- Reconstructs another lost data chunk, if this is where it is to be done. -/
def ReadServer.forwardSealed (success : Bool) : Bool × ReadState :=
  if req.ongoingAtChunk ≠ srv.ownChunkId req.listId then (success, st)
  else
    match req.redirections.find? fun e =>
      e.original.2 < srv.dataChunkCount && e.original.2 ≠ req.chunkId with
    | none => (success, st)
    | some e =>
      let r := st.waiting.insertDegradedChunk req.listId req.stripeId e.original.2 none
      match r.2 with
      | .start =>
        let requestId := st.lastId + 1
        srv.fetchChunks req { st with
          waiting := r.1
          lastId := requestId
          isReconstructed := false
          ops := st.ops ++ [(requestId, { req with op := .none })] } requestId
      | .finished => (success, { st with waiting := r.1, isReconstructed := true })
      | _ => (success, { st with waiting := r.1, isReconstructed := false })

/-- The read of an object from an unsealed chunk. -/
def ReadServer.readUnsealed (socket : PeerSocket) (key : Key) : ReadResult :=
  let requestId := st.lastId + 1
  let r := st.waiting.insertDegradedKey key srv.instanceId requestId
  let st := { st with
    lastId := requestId
    ops := if socket.self then st.ops else st.ops ++ [(requestId, req)]
    waiting := r.1 }
  match r.2 with
  | .start => do
    let st := { st with isReconstructed := false }
    let (success, st) ←
      if socket.self then srv.readLocally req st key requestId
      else .ok (req.readFrom st socket key requestId)
    .ok (srv.forwardSealed req st success)
  | .finished => .ok (false, { st with isReconstructed := true })
  | _ => .ok (false, { st with isReconstructed := false })

/-- `ServerWorker::performDegradedRead`. -/
def ReadServer.performDegradedRead : ReadResult :=
  if req.isSealed then
    -- Check whether the number of surviving nodes >= k
    if sub32 (srv.dataChunkCount + srv.parityChunkCount) req.redirections.length <
        srv.dataChunkCount then .ok (false, st)
    else .ok (srv.readSealed req st)
  else
    match srv.unsealedSocket req with
    | none => .ok (false, st)
    | some none => .error .nullSocket
    | some (some socket) =>
      match req.op.key with
      | none => .error .nullKey
      | some key => srv.readUnsealed req st socket key

end MemEC.Server
