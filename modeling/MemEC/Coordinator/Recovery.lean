import MemEC.Lib.Run

/-!
# The recoveries of a coordinator

A failed server is replaced by a backup server, one at a time: while a recovery is
in progress, the servers that fail wait in a queue. The worker that starts a
recovery takes a backup server, promotes it and then distributes the tasks over
the servers that survive. The backup server reports what it has got; when nothing
remains, the recovery is complete and the next server of the queue is handed to a
worker.

Servers are numbers. The address of a server is its number too.
-/

namespace MemEC.Coordinator

open MemEC.Lib

/-- What a recovery reads and does not change. -/
structure Cluster where
  /-- The stripe lists of a position of the ring, each with the positions of its servers. -/
  lists : ℕ → List (List ℕ)
  /-- The sealed chunks of a failed server. -/
  lostChunks : ℕ → ℕ
  lostUnsealedKeys : ℕ → ℕ

/-- A worker in `handleReconstructionRequest`, behind the choice of the backup server. -/
structure RecoveryHandler where
  original : ℕ
  backup : ℕ
  index : ℕ
  /-- The surviving servers of the lists that are still to be distributed. There are none before
  the backup server is promoted. -/
  tasks : Option (List (List ℕ))
  deriving DecidableEq

structure PendingRecovery where
  requestId : ℕ
  addr : ℕ
  socket : ℕ
  original : ℕ
  remainingChunks : ℕ
  remainingKeys : ℕ
  deriving DecidableEq

structure Recoveries where
  /-- The servers in the order of the ring. -/
  servers : List ℕ
  backupServers : List ℕ
  ready : ℕ → Bool
  allowRemapping : ℕ → Bool
  isRecovering : Bool
  /-- `waitingForRecovery.sockets`. -/
  sockets : List ℕ
  /-- The servers in `SERVER_EVENT_TYPE_HANDLE_RECONSTRUCTION_REQUEST` events. -/
  events : List ℕ
  handlers : List RecoveryHandler
  recovery : List PendingRecovery
  nextRequestId : ℕ
  /-- The coordinator has divided by zero. -/
  crashed : Bool
  /-- The servers for which a reconstruction was triggered, and those that are recovered. -/
  triggered : List ℕ
  recovered : List ℕ

inductive RecoveryAction
  | setReady (server : ℕ) (ready : Bool)
  | setAllowRemapping (server : ℕ) (allow : Bool)
  /-- A backup server registers. -/
  | register (server : ℕ)
  /-- `SERVER_EVENT_TYPE_TRIGGER_RECONSTRUCTION`. -/
  | trigger (server : ℕ)
  /-- A worker takes an event from the queue. -/
  | handle (j : ℕ)
  | promote (j : ℕ)
  | distribute (j : ℕ)
  /-- `handlePromoteBackupServerResponse`. -/
  | respond (requestId addr chunkCount unsealedCount socket : ℕ)

namespace Recoveries

def start (servers backupServers : List ℕ) (ready allowRemapping : ℕ → Bool) : Recoveries where
  servers
  backupServers
  ready
  allowRemapping
  isRecovering := false
  sockets := []
  events := []
  handlers := []
  recovery := []
  nextRequestId := 0
  crashed := false
  triggered := []
  recovered := []

/-- A backup server takes the place of the failed server in the ring. -/
def replaceBy (s : Recoveries) (socket backup : ℕ) (backupServers : List ℕ) : Recoveries :=
  let index := s.servers.idxOf socket
  { s with
    isRecovering := true
    backupServers
    servers := s.servers.set index backup
    handlers := s.handlers ++ [⟨socket, backup, index, none⟩] }

/-- `handleReconstructionRequest` up to the choice of the backup server. -/
def handleReconstructionRequest (s : Recoveries) (socket : ℕ) : Recoveries :=
  if socket ∉ s.servers then s
  -- Check if there is other ongoing recovery
  else if s.isRecovering then { s with sockets := s.sockets ++ [socket] }
  else
    match s.backupServers with
    | [] => { s with isRecovering := true }
    | backup :: backupServers => s.replaceBy socket backup backupServers

/-- The sockets of the surviving servers of a list. -/
def surviving (s : Recoveries) (list : List ℕ) : List ℕ :=
  (list.filterMap fun i => s.servers[i]?).filter fun t => s.ready t && !s.allowRemapping t

/-- The backup server is told what it has to take over, and the recovery is pending. -/
def promote (cluster : Cluster) (s : Recoveries) (j : ℕ) (h : RecoveryHandler) : Recoveries :=
  { s with
    handlers := s.handlers.set j { h with tasks := some ((cluster.lists h.index).map s.surviving) }
    recovery := s.recovery ++ [⟨s.nextRequestId, h.original, h.backup, h.original,
      cluster.lostChunks h.original, cluster.lostUnsealedKeys h.original⟩]
    nextRequestId := s.nextRequestId + 1 }

def numSurvivingServers (s : Recoveries) (backup : ℕ) (task : List ℕ) : ℕ :=
  task.countP fun t => s.ready t && t ≠ backup

/-- The tasks of one list are distributed; without any the worker returns. -/
def distribute (s : Recoveries) (j : ℕ) (h : RecoveryHandler) : List (List ℕ) → Recoveries
  | [] => { s with handlers := s.handlers.eraseIdx j }
  | task :: tasks =>
    -- The number of stripes is divided by the number of servers.
    if s.numSurvivingServers h.backup task = 0 then { s with crashed := true }
    else { s with handlers := s.handlers.set j { h with tasks := some tasks } }

/-- The recovery is complete, and the next one can start. -/
def complete (s : Recoveries) (original : ℕ) : Recoveries :=
  let s := { s with recovered := original :: s.recovered, isRecovering := false }
  match s.sockets with
  | [] => s
  | failed :: sockets => { s with sockets, events := s.events ++ [failed] }

/-- `handlePromoteBackupServerResponse` with `Pending::eraseRecovery`. -/
def handlePromoteBackupServerResponse (s : Recoveries)
    (requestId addr chunkCount unsealedCount socket : ℕ) : Recoveries :=
  match s.recovery.find? fun r => r.requestId = requestId with
  | none => s
  | some r =>
    if addr = r.addr ∧ chunkCount ≤ r.remainingChunks ∧ unsealedCount ≤ r.remainingKeys ∧
        socket = r.socket then
      let r := { r with
        remainingChunks := r.remainingChunks - chunkCount
        remainingKeys := r.remainingKeys - unsealedCount }
      let recovery := s.recovery.eraseP fun r => r.requestId = requestId
      if r.remainingChunks = 0 ∧ r.remainingKeys = 0 then { s with recovery }.complete r.original
      else { s with recovery := r :: recovery }
    else s

def step (cluster : Cluster) (s : Recoveries) (action : RecoveryAction) : Recoveries :=
  if s.crashed then s
  else
    match action with
    | .setReady server ready => { s with ready := Function.update s.ready server ready }
    | .setAllowRemapping server allow =>
      { s with allowRemapping := Function.update s.allowRemapping server allow }
    | .register server => { s with backupServers := s.backupServers ++ [server] }
    | .trigger server =>
      if server ∈ s.servers then
        { s with triggered := server :: s.triggered }.handleReconstructionRequest server
      else s
    | .handle j =>
      match s.events[j]? with
      | none => s
      | some server => { s with events := s.events.eraseIdx j }.handleReconstructionRequest server
    | .promote j =>
      match s.handlers[j]? with
      | some h => if h.tasks = none then s.promote cluster j h else s
      | none => s
    | .distribute j =>
      match s.handlers[j]? with
      | some h =>
        match h.tasks with
        | some tasks => s.distribute j h tasks
        | none => s
      | none => s
    | .respond requestId addr chunkCount unsealedCount socket =>
      s.handlePromoteBackupServerResponse requestId addr chunkCount unsealedCount socket

/-! ## What recoveries promise -/

/-- The servers whose backup server is chosen and not yet pending. -/
def promoting (handlers : List RecoveryHandler) : List ℕ :=
  (handlers.filter fun h => h.tasks = none).map RecoveryHandler.original

/-- The servers that are being recovered. -/
def inProgress (s : Recoveries) : List ℕ :=
  promoting s.handlers ++ s.recovery.map PendingRecovery.original

/-- The servers whose turn comes later. -/
def waiting (s : Recoveries) : List ℕ := s.sockets ++ s.events

structure Sound (s : Recoveries) : Prop where
  running : s.crashed = false
  atMostOne : s.inProgress.length ≤ 1
  triggered : ∀ t ∈ s.triggered, t ∈ s.recovered ∨ t ∈ s.inProgress ∨ t ∈ s.waiting
  flag : s.isRecovering = true ↔ s.inProgress ≠ []
  /-- A recovery with nothing left is complete. -/
  completes : ∀ r ∈ s.recovery, r.remainingChunks ≠ 0 ∨ r.remainingKeys ≠ 0

/-- When the server can be replaced, there is a backup server. -/
def CanStart (s : Recoveries) (server : ℕ) : Prop :=
  server ∈ s.servers → s.isRecovering = false → s.backupServers ≠ []

/-- A recovery starts with a backup server, has something to recover, and finds servers that
survive in each list. -/
def Allowed (cluster : Cluster) (s : Recoveries) : RecoveryAction → Prop
  | .trigger server => s.CanStart server
  | .handle j => ∀ server, s.events[j]? = some server → s.CanStart server
  | .promote j => ∀ h, s.handlers[j]? = some h → h.tasks = none →
      cluster.lostChunks h.original ≠ 0 ∨ cluster.lostUnsealedKeys h.original ≠ 0
  | .distribute j => ∀ h task tasks, s.handlers[j]? = some h → h.tasks = some (task :: tasks) →
      s.numSurvivingServers h.backup task ≠ 0
  | _ => True

end Recoveries

end MemEC.Coordinator
