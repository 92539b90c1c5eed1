import MemEC.Common.RemapState
import MemEC.Lib.Run

/-!
# The state of a server at the coordinator

A server leaves the normal state through INTERMEDIATE and comes back through
COORDINATED. The clients acknowledge the change, and a worker waits for all of
them before it writes the final state. The acknowledgements are kept in a pool of
client names. Every comparison of the pool with the clients that are alive is one
of sizes.

The threads are one reader of the messages of the clients, the workers and whoever
starts a transition. This is the part of their state that belongs to one server.
-/

namespace MemEC.Coordinator

open MemEC.Lib

/-- Where a worker is in `transitToDegraded` or `transitToNormal`. -/
inductive WorkerPhase
  | checking
  /-- The acknowledgements were missing, `pthread_cond_wait` is not called yet. -/
  | aboutToWait
  | waiting
  /-- Behind the wait. -/
  | deciding
  deriving DecidableEq

structure TransitWorker where
  /-- `event.start`: towards the degraded state. -/
  start : Bool
  phase : WorkerPhase
  deriving DecidableEq

inductive ReaderPhase
  | receiving
  /-- `updateState` has to compare the sizes. -/
  | checking
  /-- `removeAliveClient` is between its two critical sections. -/
  | leaving (client : ℕ)
  deriving DecidableEq

structure StateTransit where
  /-- `serversState` of the server. -/
  state : Common.RemapState
  aliveClients : Finset ℕ
  ackClients : Finset ℕ
  reader : ReaderPhase
  workers : List TransitWorker
  /-- The number of transitions so far. -/
  transition : ℕ
  /-- The clients that are alive and have acknowledged the current transition. -/
  acknowledged : Finset ℕ

inductive TransitAction
  /-- `stateChangeInitHandler`. -/
  | start (start : Bool)
  /-- A record of a client that answers `transition`. -/
  | ack (client : ℕ) (state : Common.RemapState) (transition : ℕ)
  /-- `updateState` behind the record. -/
  | checkAck
  | join (client : ℕ)
  | leave (client : ℕ)
  /-- The second critical section of `removeAliveClient`. -/
  | leaveAcks
  /-- A worker calls `isAllClientAcked`. -/
  | check (j : ℕ)
  | wait (j : ℕ)
  /-- `pthread_cond_wait` returns without a broadcast. -/
  | wake (j : ℕ)
  /-- A worker takes the lock on the state and goes on to its end. -/
  | finish (j : ℕ)

/-- The state in which a transition starts, the one it waits in and the one it ends in. -/
def stateBefore (start : Bool) : Common.RemapState := if start then .normal else .degraded

def stateDuring (start : Bool) : Common.RemapState := if start then .intermediate else .coordinated

def stateAfter (start : Bool) : Common.RemapState := if start then .degraded else .normal

namespace TransitWorker

def atPhase (w : TransitWorker) (phase : WorkerPhase) : TransitWorker := { w with phase }

/-- What `pthread_cond_broadcast` does to a worker. -/
def broadcast (w : TransitWorker) : TransitWorker :=
  if w.phase = .waiting then w.atPhase .deciding else w

end TransitWorker

namespace StateTransit

def init : StateTransit where
  state := .normal
  aliveClients := ∅
  ackClients := ∅
  reader := .receiving
  workers := []
  transition := 0
  acknowledged := ∅

/-! ## The clients -/

def inTransition (s : StateTransit) : Prop := s.state = .intermediate ∨ s.state = .coordinated

instance (s : StateTransit) : Decidable s.inTransition :=
  inferInstanceAs (Decidable (_ ∨ _))

/-- The check of `updateState` on the state that a client reports. -/
def acceptsAck (s : StateTransit) (state : Common.RemapState) : Prop :=
  s.inTransition ∧ ¬(s.state = .intermediate ∧ state ≠ .waitDegraded ∨
    s.state = .coordinated ∧ state ≠ .waitNormal)

instance (s : StateTransit) (state : Common.RemapState) : Decidable (s.acceptsAck state) :=
  inferInstanceAs (Decidable (_ ∧ _))

def allAcked (s : StateTransit) : Prop := s.aliveClients.card = s.ackClients.card

instance (s : StateTransit) : Decidable s.allAcked := inferInstanceAs (Decidable (_ = _))

/-- The broadcast of `isAllClientAcked`. -/
def signalAllAcked (s : StateTransit) : StateTransit :=
  if s.allAcked then { s with workers := s.workers.map TransitWorker.broadcast } else s

/-- `updateState` up to the insertion into the pool. -/
def updateState (s : StateTransit) (client : ℕ) (state : Common.RemapState) (transition : ℕ) :
    StateTransit :=
  if s.acceptsAck state then
    if client ∈ s.aliveClients then
      { s with
        reader := .checking
        ackClients := insert client s.ackClients
        acknowledged :=
          if transition = s.transition then insert client s.acknowledged else s.acknowledged }
    else { s with reader := .checking }
  else s

def addAliveClient (s : StateTransit) (client : ℕ) : StateTransit :=
  { s with aliveClients := insert client s.aliveClients }

/-- The first critical section. -/
def removeAliveClient (s : StateTransit) (client : ℕ) : StateTransit :=
  { s with
    reader := .leaving client
    aliveClients := s.aliveClients.erase client
    acknowledged := s.acknowledged.erase client }

def removeClientAcks (s : StateTransit) (client : ℕ) : StateTransit :=
  { s with reader := .receiving, ackClients := s.ackClients.erase client }

/-! ## The transitions -/

/-- The acknowledgements that the reader inserts between the write of the state and
`resetClientAck` are cleared, as they are here. -/
def stateChangeInitHandler (s : StateTransit) (start : Bool) : StateTransit :=
  if s.state = stateBefore start then
    { s with
      state := stateDuring start
      ackClients := ∅
      workers := s.workers ++ [⟨start, .checking⟩]
      transition := s.transition + 1
      acknowledged := ∅ }
  else s

def setPhase (s : StateTransit) (j : ℕ) (w : TransitWorker) (phase : WorkerPhase) : StateTransit :=
  { s with workers := s.workers.set j (w.atPhase phase) }

/-- The first call of `isAllClientAcked`, by a worker. -/
def check (s : StateTransit) (j : ℕ) (w : TransitWorker) : StateTransit :=
  if s.allAcked then s.signalAllAcked.setPhase j w .deciding else s.setPhase j w .aboutToWait

/-- A worker behind the wait: it gives up when the state is not the one it expects. -/
def finish (s : StateTransit) (j : ℕ) (w : TransitWorker) : StateTransit :=
  if s.state ≠ stateDuring w.start then { s with workers := s.workers.eraseIdx j }
  else { s with workers := s.workers.eraseIdx j, state := stateAfter w.start }

/-- What `f` does with the worker `j` when this is in `phase`. -/
def withWorker (s : StateTransit) (j : ℕ) (phase : WorkerPhase)
    (f : TransitWorker → StateTransit) : StateTransit :=
  match s.workers[j]? with
  | some w => if w.phase = phase then f w else s
  | none => s

/-- The reader takes the next message when it has finished the last one. -/
def whenReceiving (s next : StateTransit) : StateTransit :=
  if s.reader = .receiving then next else s

def step (s : StateTransit) : TransitAction → StateTransit
  | .start start => s.stateChangeInitHandler start
  | .ack client state transition => s.whenReceiving (s.updateState client state transition)
  | .checkAck =>
    if s.reader = .checking then { s.signalAllAcked with reader := .receiving } else s
  | .join client => s.whenReceiving (s.addAliveClient client)
  | .leave client => s.whenReceiving (s.removeAliveClient client)
  | .leaveAcks =>
    match s.reader with
    | .leaving client => s.removeClientAcks client
    | _ => s
  | .check j => s.withWorker j .checking (s.check j)
  | .wait j => s.withWorker j .aboutToWait fun w => s.setPhase j w .waiting
  | .wake j => s.withWorker j .waiting fun w => s.setPhase j w .deciding
  | .finish j => s.withWorker j .deciding (s.finish j)

/-! ## What is claimed -/

/-- From INTERMEDIATE to DEGRADED, or from COORDINATED to NORMAL. -/
def Moves (s s' : StateTransit) : Prop :=
  ∃ start, s.state = stateDuring start ∧ s'.state = stateAfter start

/-- The server is moved only if every client alive has acknowledged the current transition. -/
def MovesAcknowledged (s : StateTransit) (action : TransitAction) : Prop :=
  s.Moves (s.step action) → s.aliveClients ⊆ s.acknowledged

end StateTransit

end MemEC.Coordinator
