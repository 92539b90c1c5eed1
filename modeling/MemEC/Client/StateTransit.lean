import MemEC.Client.Pending
import MemEC.Common.RemapState
import MemEC.Lib.Run

/-!
# A server in transition, at a client

When a client hears that a server is in the intermediate state, it gathers the
requests that are pending in the stripe lists of the server and sends requests to
revert parity deltas. It answers with WAIT_DEGRADED when both are done. Of the
gathered requests the IDs of the applications are kept.

The threads are the reader of the messages of the coordinator, the workers that
handle responses and everybody who checks whether the answer is due. This is the
part of their state that belongs to one server, the target. Servers are numbered.
-/

namespace MemEC.Client

open MemEC.Lib MemEC.Common

/-- The opcodes of the requests that are gathered. -/
inductive WriteOpcode
  | set
  | update
  | delete
  deriving DecidableEq

/-- In the order in which their maps are scanned. -/
def WriteOpcode.all : List WriteOpcode := [.set, .update, .delete]

theorem WriteOpcode.mem_all (op : WriteOpcode) : op ∈ WriteOpcode.all := by
  cases op <;> decide

/-- An entry for a message to a server. Of its value, the key is all that matters here. -/
structure OutstandingEntry where
  key : List UInt8
  /-- It was gathered, and its data server has been in the normal state since. -/
  waited : Bool
  deriving DecidableEq

/-- The servers, and those of the stripe list of a key. -/
structure StripeLists where
  target : ℕ
  servers : List ℕ
  dataServer : List UInt8 → ℕ
  parityServers : List UInt8 → List ℕ

/-- Where `setState` is. -/
inductive SetStatePhase
  | idle
  /-- Behind `unsetCompleted`. -/
  | unset
  | gathered
  /-- `revertDelta` has answered requests itself. -/
  | answered (outdatedRequestIds : List ℕ)
  /-- Before the requests to revert are dispatched. -/
  | dispatching
  /-- For another server, behind its own requests. -/
  | outdating (server : ℕ) (outdatedPendingRequests : List ℕ)
  | reverting (server : ℕ)
  deriving DecidableEq

/-- Where a worker is that has taken the entry of a response out. -/
inductive ResponsePhase
  | lookup (op : WriteOpcode) (pid : TimedIdentifier) (keySize : ℕ) (key : List UInt8)
    (isDegraded : Bool)
  /-- Of an UPDATE or a DELETE: is the target in transition? -/
  | check (requestId : ℕ)
  | remove (requestId : ℕ)
  | complete

structure StateTransitInfo where
  /-- `serversState` of the target. -/
  state : RemapState
  requestIds : Finset ℕ
  completed : Bool
  parityRevert : ℕ
  servers : WriteOpcode → EntryMap OutstandingEntry
  applications : ApplicationMaps
  /-- The other servers that are not in the normal state. -/
  coordinated : Finset ℕ
  reader : SetStatePhase
  workers : List ResponsePhase
  /-- The servers to which a request to revert is in the event queue, or sent. -/
  queuedReverts : List ℕ
  sentReverts : List ℕ
  /-- The number of requests to revert that were given up. -/
  droppedReverts : ℕ

inductive ClientAction
  /-- A message to a server gets its entry. -/
  | send (op : WriteOpcode) (pid : TimedIdentifier) (key : List UInt8)
  /-- An entry is taken out otherwise, as when requests are replayed. -/
  | withdraw (op : WriteOpcode) (i : ℕ)
  /-- Requests of applications come, or are answered otherwise. -/
  | setApplications (applications : ApplicationMaps)
  | respond (op : WriteOpcode) (instanceId requestId socket : ℕ) (key : List UInt8)
    (success isDegraded : Bool)
  /-- A worker goes on. -/
  | work (j : ℕ)
  /-- The message that the target is in the intermediate state. -/
  | intermediate
  | intermediateOther (server : ℕ)
  /-- The reader goes on. -/
  | read
  /-- Any other message. -/
  | setState (state : RemapState)
  | setStateOther (server : ℕ) (isNormal : Bool)
  | sendRevert (i : ℕ)
  | ackRevert (i : ℕ)
  | removePending (server : ℕ)
  /-- `ackTransit`, by any thread. -/
  | ackTransit

namespace StateTransitInfo

def start : StateTransitInfo where
  state := .normal
  requestIds := ∅
  completed := false
  parityRevert := 0
  servers := fun _ => []
  applications := ⟨[], [], [], []⟩
  coordinated := ∅
  reader := .idle
  workers := []
  queuedReverts := []
  sentReverts := []
  droppedReverts := 0

/-! ## The set of IDs and the flag -/

def removePendingRequest (s : StateTransitInfo) (requestId : ℕ) : StateTransitInfo :=
  { s with requestIds := s.requestIds.erase requestId }

def removePendingRequests (s : StateTransitInfo) (requestIds : List ℕ) : StateTransitInfo :=
  { s with requestIds := s.requestIds \ requestIds.toFinset }

def setCompleted (s : StateTransitInfo) : StateTransitInfo :=
  { s with completed := decide (s.requestIds = ∅) }

/-- `setState` holds the lock on the state of the target. -/
def locked (s : StateTransitInfo) : Bool :=
  match s.reader with
  | .unset | .gathered | .answered _ | .dispatching => true
  | .idle | .outdating .. | .reverting _ => false

/-! ## The responses -/

def setServers (s : StateTransitInfo) (op : WriteOpcode) (m : EntryMap OutstandingEntry) :
    StateTransitInfo :=
  { s with servers := Function.update s.servers op m }

def setWorker (s : StateTransitInfo) (j : ℕ) (phase : ResponsePhase) : StateTransitInfo :=
  { s with workers := s.workers.set j phase }

def endWorker (s : StateTransitInfo) (j : ℕ) : StateTransitInfo :=
  { s with workers := s.workers.eraseIdx j }

/-- The first critical section of `handleSetResponse`, `handleUpdateResponse` and
`handleDeleteResponse`: a SET goes on when it has no other entry. -/
def handleResponse (s : StateTransitInfo) (op : WriteOpcode) (instanceId requestId socket : ℕ)
    (key : List UInt8) (success isDegraded : Bool) : StateTransitInfo :=
  -- the client waits for a retry
  if op = .update ∧ success = false ∧ isDegraded = false then s
  else
    match EntryMap.eraseEntry id (fun _ => false)
      (EntryMap.isEntry OutstandingEntry.key instanceId requestId socket none) (s.servers op) with
    | none => s
    | some ((pid, e), m) =>
      if op = .set ∧ EntryMap.count m pid.instanceId pid.requestId ≠ 0 then s.setServers op m
      else
        { s.setServers op m with
          workers := s.workers ++ [.lookup op pid e.key.length key isDegraded] }

/-- The entry of the application is erased. This is its request ID, with the key that the handler
passes on to the stripe list. -/
def eraseApplication (s : StateTransitInfo) (op : WriteOpcode) (pid : TimedIdentifier)
    (keySize : ℕ) (key : List UInt8) : Option ((ℕ × List UInt8) × ApplicationMaps) :=
  match op with
  | .set =>
    (eraseKeyValue pid.parentInstanceId pid.parentRequestId 0 (some key) s.applications.set).map
      fun r => ((r.1.1.requestId, key.take keySize), { s.applications with set := r.2 })
  | .update =>
    (eraseKeyValueUpdate pid.parentInstanceId pid.parentRequestId 0 (some key)
      s.applications.update).map
      fun r => ((r.1.1.requestId, key), { s.applications with update := r.2 })
  | .delete =>
    (eraseKey pid.parentInstanceId pid.parentRequestId 0 (some key) s.applications.del).map
      fun r => ((r.1.1.requestId, key.take r.1.2.length), { s.applications with del := r.2 })

/-- The handler of a SET does not ask whether the target is in transition. -/
def phaseBehindLookup (requestId : ℕ) : WriteOpcode → ResponsePhase
  | .set => .remove requestId
  | .update | .delete => .check requestId

/-- The rest of the handlers. -/
def work (lists : StripeLists) (s : StateTransitInfo) (j : ℕ) : ResponsePhase → StateTransitInfo
  | .lookup op pid keySize key isDegraded =>
    match s.eraseApplication op pid keySize key with
    | none => s.endWorker j
    | some ((requestId, listKey), applications) =>
      if lists.target ∈ lists.parityServers listKey ∧ ¬(op = .update ∧ isDegraded = true) then
        { s with applications }.setWorker j (phaseBehindLookup requestId op)
      else { s with applications }.endWorker j
  | .check requestId =>
    if s.locked then s
    else if s.state = .normal ∨ s.completed then s.endWorker j
    else s.setWorker j (.remove requestId)
  | .remove requestId =>
    if (s.removePendingRequest requestId).requestIds = ∅ then
      (s.removePendingRequest requestId).setWorker j .complete
    else (s.removePendingRequest requestId).endWorker j
  | .complete => s.setCompleted.endWorker j

/-! ## The reader -/

/-- The conditions of `gatherPendingNormalRequests` on an entry. -/
def gathers (lists : StripeLists) (s : StateTransitInfo) (e : TimedIdentifier × OutstandingEntry) :
    Bool :=
  lists.dataServer e.2.key ≠ lists.target && lists.target ∈ lists.parityServers e.2.key &&
    lists.dataServer e.2.key ∉ s.coordinated

def gathered (lists : StripeLists) (s : StateTransitInfo) :
    List (TimedIdentifier × OutstandingEntry) :=
  WriteOpcode.all.flatMap fun op => (s.servers op).filter (s.gathers lists)

/-- The maps are scanned one after the other. What happens to one of them before it is scanned,
or behind that, might as well happen before or behind all. -/
def gatherPendingNormalRequests (lists : StripeLists) (s : StateTransitInfo) : StateTransitInfo :=
  let s' := { s with
    reader := .gathered
    requestIds := s.requestIds ∪ ((s.gathered lists).map fun e => e.1.parentRequestId).toFinset
    servers := fun op => (s.servers op).map fun e =>
      if s.gathers lists e then (e.1, { e.2 with waited := true }) else e }
  if s.gathered lists = [] then s'.setCompleted else s'

/-- The loop of `revertDelta` over the SETs: those that wait for a failed parity server no more
wait for it. When it was the last, the application is answered. -/
def revertSets (lists : StripeLists) (server : ℕ) :
    EntryMap OutstandingEntry → EntryMap OutstandingEntry → EntryMap KeyValueBackup → List ℕ →
      EntryMap OutstandingEntry × EntryMap KeyValueBackup × List ℕ
  | kept, [], applications, outdatedRequestIds => (kept, applications, outdatedRequestIds)
  | kept, e :: todo, applications, outdatedRequestIds =>
    if e.1.ptr = server ∧ lists.dataServer e.2.key ≠ server then
      if EntryMap.count (kept ++ e :: todo) e.1.instanceId e.1.requestId = 1 then
        match eraseKeyValue e.1.parentInstanceId e.1.parentRequestId 0 (some e.2.key)
          applications with
        | none => revertSets lists server kept todo applications outdatedRequestIds
        | some ((pid, _), applications') =>
          revertSets lists server kept todo applications'
            (if pid.ptr ≠ 0 then pid.requestId :: outdatedRequestIds else outdatedRequestIds)
      else revertSets lists server kept todo applications outdatedRequestIds
    else revertSets lists server (kept ++ [e]) todo applications outdatedRequestIds

def revertServer (lists : StripeLists) (s : StateTransitInfo) (server : ℕ) :
    StateTransitInfo × List ℕ :=
  let r := revertSets lists server [] (s.servers .set) s.applications.set []
  ({ s.setServers .set r.1 with applications := { s.applications with set := r.2.1 } }, r.2.2)

/-- The servers that are asked to revert. -/
def revertTargets (lists : StripeLists) (s : StateTransitInfo) : List ℕ :=
  lists.servers.filter fun t => t ≠ lists.target && t ∉ s.coordinated

/-- The IDs of requests for the data server, of any kind. -/
def outdatedPendingRequests (lists : StripeLists) (s : StateTransitInfo) (server : ℕ) : List ℕ :=
  (WriteOpcode.all.flatMap fun op =>
    (s.servers op).filter fun e => lists.dataServer e.2.key = server).map
      fun e => e.1.parentRequestId

/-- A data server leaves the normal state. -/
def leaveNormal (lists : StripeLists) (s : StateTransitInfo) (server : ℕ) : StateTransitInfo :=
  { s with
    coordinated := insert server s.coordinated
    servers := fun op => (s.servers op).map fun e =>
      if lists.dataServer e.2.key = server then (e.1, { e.2 with waited := false }) else e }

/-- The last part of `gatherPendingNormalRequests`, for another server. The flag is set when a
removal leaves nothing. -/
def removeOutdated (s : StateTransitInfo) (requestIds : List ℕ) : StateTransitInfo :=
  if requestIds ≠ [] ∧ (s.removePendingRequests requestIds).requestIds = ∅ then
    (s.removePendingRequests requestIds).setCompleted
  else s.removePendingRequests requestIds

/-- The end of `revertDelta` on the requests that it has answered. -/
def removeAnswered (s : StateTransitInfo) (requestIds : List ℕ) : StateTransitInfo :=
  if requestIds ≠ [] then (s.removePendingRequests requestIds).setCompleted else s

def read (lists : StripeLists) (s : StateTransitInfo) : StateTransitInfo :=
  match s.reader with
  | .idle => s
  | .unset => s.gatherPendingNormalRequests lists
  | .gathered =>
    let r := s.revertServer lists lists.target
    { r.1 with reader := .answered r.2 }
  | .answered requestIds => { s.removeAnswered requestIds with reader := .dispatching }
  | .dispatching =>
    { s with
      parityRevert := s.parityRevert + (s.revertTargets lists).length
      queuedReverts := s.queuedReverts ++ s.revertTargets lists
      state := .intermediate
      reader := .idle }
  | .outdating server requestIds =>
    { s.removeOutdated requestIds with reader := .reverting server }
  | .reverting server => { (s.revertServer lists server).1 with reader := .idle }

/-- `STATE_INTERMEDIATE` in `setState`. -/
def handleIntermediate (s : StateTransitInfo) : StateTransitInfo :=
  if s.state = .waitDegraded then s else { s with completed := false, reader := .unset }

def whenIdle (s next : StateTransitInfo) : StateTransitInfo :=
  if s.reader = .idle then next else s

/-! ## The requests to revert, and the answer -/

/-- What `handleDeltaAcknowledgement` does with the counter. -/
def acknowledgeRevert (s : StateTransitInfo) (i : ℕ) : StateTransitInfo :=
  if i < s.sentReverts.length then
    { s with sentReverts := s.sentReverts.eraseIdx i, parityRevert := s.parityRevert - 1 }
  else s

/-- `ClientWorker::removePending`: the requests to a server are acknowledged in its place. -/
def removePending (s : StateTransitInfo) (server : ℕ) : StateTransitInfo :=
  { s with
    sentReverts := s.sentReverts.filter fun t => t ≠ server
    parityRevert := s.parityRevert - s.sentReverts.count server
    droppedReverts := s.droppedReverts + s.sentReverts.count server }

/-- `Pending::findKeyValue` of an ID alone. -/
def findKeyValue (s : StateTransitInfo) (requestId : ℕ) : Bool :=
  s.applications.set.any fun e => e.1.requestId = requestId

/-- The condition of `checkAckForServer` in the intermediate state. -/
def ready (s : StateTransitInfo) : Prop := s.parityRevert = 0 ∧ s.completed = true

instance (s : StateTransitInfo) : Decidable s.ready := inferInstanceAs (Decidable (_ ∧ _))

/-- A client that is not ready forgets the IDs that it does not find. -/
def checkAckForServer (s : StateTransitInfo) : StateTransitInfo :=
  if s.state = .intermediate then
    if s.ready then { s with state := .waitDegraded }
    else { s with requestIds := s.requestIds.filter fun requestId => s.findKeyValue requestId }
  else if s.state = .coordinated then { s with state := .waitNormal }
  else s

def step (lists : StripeLists) (s : StateTransitInfo) : ClientAction → StateTransitInfo
  | .send op pid key => s.setServers op ((pid, ⟨key, false⟩) :: s.servers op)
  | .withdraw op i => s.setServers op ((s.servers op).eraseIdx i)
  | .setApplications applications => { s with applications }
  | .respond op instanceId requestId socket key success isDegraded =>
    s.handleResponse op instanceId requestId socket key success isDegraded
  | .work j =>
    match s.workers[j]? with
    | some phase => s.work lists j phase
    | none => s
  | .intermediate => s.whenIdle s.handleIntermediate
  | .intermediateOther server =>
    if server = lists.target then s
    else s.whenIdle
      { s.leaveNormal lists server with
        reader := .outdating server (s.outdatedPendingRequests lists server) }
  | .read => s.read lists
  | .setState state => s.whenIdle { s with state }
  | .setStateOther server isNormal =>
    s.whenIdle (if isNormal then { s with coordinated := s.coordinated.erase server }
      else s.leaveNormal lists server)
  | .sendRevert i =>
    match s.queuedReverts[i]? with
    | some server =>
      { s with
        queuedReverts := s.queuedReverts.eraseIdx i
        sentReverts := server :: s.sentReverts }
    | none => s
  | .ackRevert i => s.acknowledgeRevert i
  | .removePending server => s.removePending server
  | .ackTransit => if s.locked then s else s.checkAckForServer

/-! ## What is claimed -/

/-- Nobody waits for an answer, neither of a request nor to a request to revert. -/
structure Quiet (s : StateTransitInfo) : Prop where
  requests : ∀ op, ∀ e ∈ s.servers op, e.2.waited = false
  reverts : s.queuedReverts = [] ∧ s.sentReverts = [] ∧ s.droppedReverts = 0

/-- The answer WAIT_DEGRADED is sent. -/
def Answers (s : StateTransitInfo) : Prop :=
  s.locked = false ∧ s.state = .intermediate ∧ s.ready

/-- The client answers only when everything has an answer. -/
def AnswersInTime (s : StateTransitInfo) : Prop := s.Answers → s.Quiet

end StateTransitInfo

end MemEC.Client
