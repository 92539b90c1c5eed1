import Mathlib.Data.List.AList
import Mathlib.Tactic
import MemEC.Coordinator.Heartbeat

/-!
# Backups of key operations

A client keeps the key operations that a server has acknowledged until the server
tells it that the coordinator has them. The server puts its unreported
operations into heartbeats. When the coordinator has acknowledged a heartbeat,
the server sends all clients the range of timestamps between the heartbeat that
was acknowledged before and this one, and the clients drop what lies in it.

Heartbeats arrive at the coordinator in the order in which they are sent. All
other messages may overtake each other.
-/

namespace MemEC.Client

open MemEC.Common MemEC.Coordinator MemEC.Lib

/-! ## The client -/

/-- `Backup::ops`, for one server. -/
abbrev Backup := KeyMap OpMetadata

namespace Backup

def insert (b : Backup) (key : Key) (op : OpMetadata) : Backup :=
  match b.find key with
  | none => b.assign key op
  | some e =>
    if op.opcode = .set then
      if e.timestamp < op.timestamp then b.assign key op else b
    else if op.opcode = .delete then
      if e.timestamp < op.timestamp then b.eraseKey key else b
    else b

/-- Whether an entry is to be dropped. -/
def selected (fromTimestamp toTimestamp timestamp : ℕ) : Bool :=
  if toTimestamp < fromTimestamp then fromTimestamp ≤ timestamp || timestamp < toTimestamp
  else fromTimestamp ≤ timestamp && timestamp < toTimestamp

def erase (b : Backup) (fromTimestamp toTimestamp : ℕ) : Backup where
  entries := b.entries.filter fun e => !selected fromTimestamp toTimestamp e.2.timestamp
  nodupKeys := b.nodupKeys.sublist List.filter_sublist

end Backup

/-! ## The server -/

structure PendingAck where
  timestamps : List ℕ
  lastAckTimestamp : ℕ
  deriving DecidableEq, Repr

namespace PendingAck

def insert (p : PendingAck) (timestamp : ℕ) : PendingAck :=
  { p with timestamps := p.timestamps ++ [timestamp] }

/-- The result is `from`. -/
def erase (p : PendingAck) (toTimestamp : ℕ) : Option (PendingAck × ℕ) :=
  if toTimestamp ∈ p.timestamps then
    some (⟨p.timestamps.erase toTimestamp, toTimestamp⟩, p.lastAckTimestamp)
  else none

end PendingAck

/-! ## All parties -/

/-- The message `(from, to)` to a client. -/
structure AckMetadata (Client : Type) where
  client : Client
  fromTimestamp : ℕ
  toTimestamp : ℕ

structure BackupSystem (Client : Type) where
  server : KeyServer
  /-- The server has not crashed. -/
  up : Bool
  pendingAck : PendingAck
  /-- Heartbeats on their way to the coordinator. -/
  frames : List Frame
  /-- The records that the coordinator has. -/
  reached : List Record
  /-- Acknowledgements on their way to the server. -/
  acks : List ℕ
  /-- Responses on their way to the clients. -/
  responses : List (Client × Record)
  ackMetadata : List (AckMetadata Client)
  backups : Client → Backup
  /-- The operations whose responses the clients have handled. -/
  acknowledged : List (Client × Record)

inductive BackupAction (Client : Type) where
  /-- The server serves a SET. `timestamp` is what the variable holds when it is not assigned. -/
  | set (c : Client) (key : Key) (md : Metadata) (timestamp : ℕ)
  | delete (c : Client) (key : Key) (md : Metadata) (timestamp : ℕ)
  /-- The server sends a heartbeat; the lists have the orders of its sets. -/
  | heartbeat (bufferSize : ℕ) (sealed : List Metadata) (ops : List Record)
  /-- The coordinator handles the next heartbeat. -/
  | receive
  /-- The server handles an acknowledgement of the coordinator. -/
  | ack (i : ℕ)
  /-- A client handles the response to an operation. -/
  | respond (i : ℕ)
  /-- A client handles an ACK_METADATA message. -/
  | ackMetadata (i : ℕ)
  /-- The server crashes, and with it what it has sent to the coordinator is lost. -/
  | crash

namespace BackupSystem

variable {Client : Type}

def start : BackupSystem Client where
  server := .start
  up := true
  pendingAck := ⟨[], 0⟩
  frames := []
  reached := []
  acks := []
  responses := []
  ackMetadata := []
  backups _ := ∅
  acknowledged := []

/-- The timestamp in the response: `insertOpMetadata` assigns it only for an operation that meets no
other one on its key. -/
def responseTimestamp (s : BackupSystem Client) (key : Key) (timestamp : ℕ) : ℕ :=
  match s.server.ops.find key with
  | none => s.server.timestamp
  | some _ => timestamp

/-- `COORDINATOR_EVENT_TYPE_SYNC`. -/
def heartbeat (s : BackupSystem Client) (bufferSize : ℕ) (sealed : List Metadata)
    (ops : List Record) : BackupSystem Client :=
  let frame := generateHeartbeatMessage bufferSize s.server.timestamp sealed ops
  { s with
    server := s.server.step (.heartbeat bufferSize sealed ops)
    frames := s.frames ++ [frame]
    pendingAck :=
      if frame.sealed ≠ [] ∨ frame.ops ≠ [] then s.pendingAck.insert frame.timestamp
      else s.pendingAck }

variable [DecidableEq Client] (clients : List Client)

def step (s : BackupSystem Client) : BackupAction Client → BackupSystem Client
  | .set c key md timestamp =>
    if s.up then
      { s with
        server := s.server.step (.set key md)
        responses := s.responses ++ [(c, ⟨key, md, .set, s.responseTimestamp key timestamp⟩)] }
    else s
  | .delete c key md timestamp =>
    if s.up && (s.server.keys.find key).isSome then
      { s with
        server := s.server.step (.delete key md)
        responses := s.responses ++ [(c, ⟨key, md, .delete, s.responseTimestamp key timestamp⟩)] }
    else s
  | .heartbeat bufferSize sealed ops =>
    if s.up && ops.isPerm (s.server.ops.entries.map Sigma.snd) && sealed.isPerm s.server.sealed then
      s.heartbeat bufferSize sealed ops
    else s
  | .receive =>
    match s.frames with
    | [] => s
    | f :: frames =>
      { s with frames, reached := s.reached ++ f.ops, acks := s.acks ++ [f.timestamp] }
  | .ack i =>
    match s.up, s.acks[i]? with
    | true, some toTimestamp =>
      match s.pendingAck.erase toTimestamp with
      | none => { s with acks := s.acks.eraseIdx i }
      | some (pendingAck, fromTimestamp) =>
        { s with
          acks := s.acks.eraseIdx i
          pendingAck
          ackMetadata := s.ackMetadata ++ clients.map fun c => ⟨c, fromTimestamp, toTimestamp⟩ }
    | _, _ => s
  | .respond i =>
    match s.responses[i]? with
    | none => s
    | some (c, r) =>
      { s with
        responses := s.responses.eraseIdx i
        backups := Function.update s.backups c ((s.backups c).insert r.key r.op)
        acknowledged := s.acknowledged ++ [(c, r)] }
  | .ackMetadata i =>
    match s.ackMetadata[i]? with
    | none => s
    | some m =>
      { s with
        ackMetadata := s.ackMetadata.eraseIdx i
        backups := Function.update s.backups m.client
          ((s.backups m.client).erase m.fromTimestamp m.toTimestamp) }
  | .crash => { s with server := .start, up := false, frames := [], acks := [] }

/-- The state after the actions. -/
def after (acts : List (BackupAction Client)) : BackupSystem Client :=
  run (step clients) start acts

end BackupSystem

end MemEC.Client
