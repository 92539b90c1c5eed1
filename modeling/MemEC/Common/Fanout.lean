import Mathlib.Tactic
import MemEC.Common.Key
import MemEC.Lib.Run

/-!
# Requests to several replicas

A client sends a SET to the data server and the parity servers of the key, and
a data server forwards an UPDATE or a DELETE to the parity servers. The sender
keeps one pending entry for each replica, in a multimap whose keys compare the
instance ID and the request ID alone, and one entry for the request that it
serves. All entries are inserted before the first request is sent. The
response that leaves no entry behind is the one that is passed upstream.
-/

namespace MemEC.Common

open MemEC.Lib

structure PendingIdentifier where
  instanceId : ℕ
  parentInstanceId : ℕ
  requestId : ℕ
  parentRequestId : ℕ
  ptr : ℕ
  deriving DecidableEq, Repr

/-- `operator==`, against an identifier with these IDs. -/
def PendingIdentifier.is (instanceId requestId : ℕ) (pid : PendingIdentifier) : Bool :=
  pid.instanceId = instanceId && pid.requestId = requestId

/-- An entry: of the value, the key is all that matters here. -/
abbrev PendingEntry := PendingIdentifier × List UInt8

/-- An `unordered_multimap`. Which one of several entries of an identifier `find` returns is not
specified; the first one stands for any of them. -/
abbrev PendingMap := List PendingEntry

namespace PendingMap

/-- The entries of an identifier. -/
def entriesOf (m : PendingMap) (instanceId requestId : ℕ) : List PendingEntry :=
  m.filter fun e => e.1.is instanceId requestId

def count (m : PendingMap) (instanceId requestId : ℕ) : ℕ := (m.entriesOf instanceId requestId).length

/-- An entry with the property is erased. -/
def eraseEntry (m : PendingMap) (p : PendingEntry → Bool) : Option (PendingEntry × PendingMap) :=
  (m.find? p).map fun e => (e, m.eraseP p)

end PendingMap

/-! ## The handlers of the responses -/

structure ReplicaResponse where
  instanceId : ℕ
  requestId : ℕ
  socket : ℕ
  key : List UInt8
  success : Bool
  deriving Repr

/-- What is sent to the requester. -/
structure Upstream where
  instanceId : ℕ
  requestId : ℕ
  success : Bool
  deriving DecidableEq, Repr

structure FanState where
  pending : PendingMap
  parents : PendingMap
  sent : List Upstream

/-- What the handlers do differently. -/
structure ResponseHandler where
  /-- The entry is looked up with the instance ID in the response, not with that of the process. -/
  usesEventInstance : Bool
  /-- The socket of the entry is compared. -/
  matchesSocket : Bool
  /-- The key of the requester's entry is compared. -/
  checksKey : Bool
  /-- A requester without a socket gets no response. -/
  checksPtr : Bool
  /-- What is reported, by the success of the response that came last. -/
  reports : Bool → Bool

namespace ResponseHandler

def lookupInstance (h : ResponseHandler) (own : ℕ) (r : ReplicaResponse) : ℕ :=
  if h.usesEventInstance then r.instanceId else own

/-- The entry that belongs to a response. -/
def isReplica (h : ResponseHandler) (own : ℕ) (r : ReplicaResponse) (e : PendingEntry) : Bool :=
  e.1.is (h.lookupInstance own r) r.requestId && (!h.matchesSocket || e.1.ptr == r.socket)

/-- The requester's entry that belongs to the entry of a replica. -/
def isParent (h : ResponseHandler) (pid : PendingIdentifier) (r : ReplicaResponse)
    (e : PendingEntry) : Bool :=
  e.1.is pid.parentInstanceId pid.parentRequestId &&
    (!h.checksKey || strncmp e.2.length r.key e.2 == 0)

/-- The requester is told. -/
def respond (h : ResponseHandler) (s : FanState) (pid : PendingIdentifier) (r : ReplicaResponse) :
    FanState :=
  match s.parents.eraseEntry (h.isParent pid r) with
  | none => s
  | some (e, parents) =>
    if h.checksPtr && e.1.ptr == 0 then { s with parents }
    else
      { s with
        parents
        sent := s.sent ++ [⟨e.1.instanceId, e.1.requestId, h.reports r.success⟩] }

/-- A response comes in. The entry is erased and the rest is counted under one lock. -/
def handle (h : ResponseHandler) (own : ℕ) (s : FanState) (r : ReplicaResponse) : FanState :=
  match s.pending.eraseEntry (h.isReplica own r) with
  | none => s
  | some (e, pending) =>
    let s := { s with pending }
    if pending.count e.1.instanceId e.1.requestId = 0 then h.respond s e.1 r else s

end ResponseHandler

/-- `ClientWorker::handleSetResponse`. -/
def handleSetResponse : ResponseHandler where
  usesEventInstance := true
  matchesSocket := true
  checksKey := true
  checksPtr := true
  reports := id

/-- `ServerWorker::handleUpdateResponse`. -/
def handleUpdateResponse : ResponseHandler where
  usesEventInstance := false
  matchesSocket := false
  checksKey := false
  checksPtr := false
  reports := id

/-- `ServerWorker::handleUpdateChunkResponse`. -/
def handleUpdateChunkResponse : ResponseHandler where
  usesEventInstance := false
  matchesSocket := false
  checksKey := false
  checksPtr := false
  reports := id

/-- `ServerWorker::handleDeleteResponse`: both branches send the response without a timestamp,
which is the one for a failure. -/
def handleDeleteResponse : ResponseHandler where
  usesEventInstance := true
  matchesSocket := false
  checksKey := false
  checksPtr := false
  reports _ := false

/-- `ServerWorker::handleDeleteChunkResponse`. -/
def handleDeleteChunkResponse : ResponseHandler where
  usesEventInstance := false
  matchesSocket := false
  checksKey := false
  checksPtr := false
  reports := id

/-! ## Runs -/

/-- A SET of a client, and the messages of a data server: for a chunk that is sealed the ones with
`Chunk` in their names. -/
inductive ReplicaOp where
  | set
  | update
  | updateChunk
  | delete
  | deleteChunk
  deriving DecidableEq, Repr

namespace ReplicaOp

def handler : ReplicaOp → ResponseHandler
  | .set => handleSetResponse
  | .update => handleUpdateResponse
  | .updateChunk => handleUpdateChunkResponse
  | .delete => handleDeleteResponse
  | .deleteChunk => handleDeleteChunkResponse

/-- The instance ID in the request, which a replica copies to its response. -/
def wireInstance (op : ReplicaOp) (own parentInstanceId : ℕ) : ℕ :=
  match op with
  | .set => own
  | _ => parentInstanceId

end ReplicaOp

/-- A request to be passed on to replicas, with the ID that is generated for it. -/
structure FanRequest where
  parentInstanceId : ℕ
  parentRequestId : ℕ
  socket : ℕ
  key : List UInt8
  requestId : ℕ
  replicas : List ℕ
  deriving Repr

/-- The entry for the requester. -/
def FanRequest.parentEntry (r : FanRequest) : PendingEntry :=
  (⟨r.parentInstanceId, r.parentInstanceId, r.parentRequestId, r.parentRequestId, r.socket⟩, r.key)

/-- The entry for a replica. -/
def FanRequest.replicaEntry (r : FanRequest) (own socket : ℕ) : PendingEntry :=
  (⟨own, r.parentInstanceId, r.requestId, r.parentRequestId, socket⟩, r.key)

/-- The insertions before the requests are sent. -/
def FanState.fanOut (s : FanState) (own : ℕ) (r : FanRequest) : FanState :=
  { s with
    pending := s.pending ++ r.replicas.map (r.replicaEntry own)
    parents := s.parents ++ [r.parentEntry] }

/-- A request that was passed on, with the replicas that have not answered yet and the answers of
the others, in the order in which they were handled. -/
structure Fan where
  request : FanRequest
  waiting : List ℕ
  answers : List Bool

structure FanSystem where
  state : FanState
  fans : List Fan

inductive FanAction where
  | fanOut (r : FanRequest)
  /-- The response of waiting replica `j` of request `i` is handled. -/
  | answer (i j : ℕ) (success : Bool)

namespace FanSystem

def start : FanSystem := ⟨⟨[], [], []⟩, []⟩

/-- The response of a replica. -/
def response (op : ReplicaOp) (own : ℕ) (r : FanRequest) (socket : ℕ) (success : Bool) :
    ReplicaResponse where
  instanceId := op.wireInstance own r.parentInstanceId
  requestId := r.requestId
  socket := socket
  key := r.key
  success := success

def step (op : ReplicaOp) (own : ℕ) (s : FanSystem) : FanAction → FanSystem
  | .fanOut r => ⟨s.state.fanOut own r, s.fans ++ [⟨r, r.replicas, []⟩]⟩
  | .answer i j success =>
    match s.fans[i]? with
    | none => s
    | some f =>
      match f.waiting[j]? with
      | none => s
      | some socket =>
        ⟨op.handler.handle own s.state (response op own f.request socket success),
          s.fans.set i
            { f with waiting := f.waiting.eraseIdx j, answers := f.answers ++ [success] }⟩

end FanSystem

end MemEC.Common
