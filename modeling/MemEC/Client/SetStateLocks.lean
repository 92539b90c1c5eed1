import Mathlib.Tactic
import MemEC.Common.RemapState
import MemEC.Lib.LockTrace

/-!
# The locks of a state message

The coordinator tells the clients in one message the states of several servers. The reader of a
client locks the states of all of them, sets them, and gives the locks back; then it acknowledges
the transitions that are done. Servers are numbered. The locks of the counters of a transition,
which their own functions take and give back, are left out.
-/

namespace MemEC.Client

open MemEC.Common MemEC.Lib

/-- A record of a message, with the state as it was sent. -/
structure StateRecord where
  server : ℕ
  signal : UInt8

/-- A message has its number of records in one byte. -/
structure StateMessage where
  records : List StateRecord
  count : records.length < 256

inductive StateLock
  /-- Of the list of sockets. -/
  | sockets
  | aliveServers
  /-- `serversStateLock` of a server. -/
  | server (server : ℕ)
  deriving DecidableEq

/-- `printServerState`: the state, if it is known. -/
def remapState (signal : UInt8) : Option RemapState :=
  if signal = 0 then some .undefined
  else if signal = 1 then some .normal
  else if signal = 2 then some .intermediate
  else if signal = 3 then some .coordinated
  else if signal = 4 then some .degraded
  else if signal = 5 then some .waitDegraded
  else if signal = 6 then some .waitNormal
  else none

/-- What the handler reads and writes. -/
structure ServersState where
  /-- The keys of `serversState`. -/
  servers : Finset ℕ
  state : ℕ → RemapState
  /-- The servers with a socket. -/
  sockets : Finset ℕ

namespace ServersState

/-- `serversState` as a map. -/
def find (s : ServersState) (server : ℕ) : Option RemapState :=
  if server ∈ s.servers then some (s.state server) else none

def set (s : ServersState) (server : ℕ) (state : RemapState) : ServersState :=
  { s with state := Function.update s.state server state }

/-- Whether a record gets to `updatedServers`. -/
def IsUpdated (s : ServersState) (r : StateRecord) : Prop := r.server ∈ s.servers ∧ r.server ∈ s.sockets

instance (s : ServersState) : DecidablePred s.IsUpdated := fun _ => inferInstanceAs (Decidable (_ ∧ _))

def updatedServers (s : ServersState) (msg : StateMessage) : List StateRecord :=
  msg.records.filter s.IsUpdated

/-- The first loop, for one record. -/
def acquire (s : ServersState) (r : StateRecord) : List (MutexAction StateLock) :=
  if r.server ∉ s.servers then []
  else if r.server ∉ s.sockets then [.lock .sockets, .unlock .sockets]
  else [.lock .sockets, .unlock .sockets, .lock (.server r.server)]

/-- The state that the second loop sets. -/
def nextState (signal state : RemapState) : RemapState :=
  if signal = .intermediate ∧ state = .waitDegraded then state
  else if signal = .coordinated ∧ state = .waitNormal then state
  else signal

/-- The second loop, for one record: an unknown state is skipped. -/
def transit (s : ServersState) (r : StateRecord) : ServersState :=
  match remapState r.signal with
  | none => s
  | some signal => s.set r.server (nextState signal (s.state r.server))

/-- The lock of a record with an unknown state is given back in the second loop. -/
def skip (r : StateRecord) : List (MutexAction StateLock) :=
  if remapState r.signal = none then [.unlock (.server r.server)] else []

def release (r : StateRecord) : MutexAction StateLock := .unlock (.server r.server)

/-- `checkAckForServer`. A transition to the degraded state is acknowledged when the requests and
the reverts that it waits for are `done`. -/
def checkAckForServer (done : ℕ → Bool) (s : ServersState) (server : ℕ) : ServersState :=
  if s.state server = .intermediate ∧ done server then s.set server .waitDegraded
  else if s.state server = .coordinated then s.set server .waitNormal
  else s

/-- `ackTransit` of some servers: the one that is given, or all. -/
def ackTransit (done : ℕ → Bool) (s : ServersState) (servers : List ℕ) : ServersState :=
  servers.foldl (checkAckForServer done) s

/-- Each of the servers is locked for its check. -/
def ackTransitLocks (servers : List ℕ) : List (MutexAction StateLock) :=
  .lock .aliveServers :: guards (servers.map .server) ++ [.unlock .aliveServers]

/-- The servers that the fourth loop acknowledges for one record. -/
def toAcknowledge (s : ServersState) (r : StateRecord) : Option (List ℕ) :=
  if s.state r.server = .intermediate then some (s.servers.sort (· ≤ ·))
  else if s.state r.server = .coordinated then some [r.server]
  else none

/-- The fourth loop. Other threads go on with what the transitions wait for: what is `done` may
differ from one record to the next. -/
def acknowledge (done : ℕ → ℕ → Bool) :
    List StateRecord → ServersState → ServersState × List (MutexAction StateLock)
  | [], s => (s, [])
  | r :: rs, s =>
    let servers := s.toAcknowledge r
    let rest := acknowledge done rs ((servers.map (ackTransit (done rs.length) s)).getD s)
    (rest.1, (servers.map ackTransitLocks).getD [] ++ rest.2)

/-- The locks of the first three loops. -/
def transitLocks (s : ServersState) (msg : StateMessage) : List (MutexAction StateLock) :=
  msg.records.flatMap s.acquire ++ (s.updatedServers msg).flatMap skip ++
    (s.updatedServers msg).reverse.map release

/-- The states at the end of the third loop. -/
def transitAll (s : ServersState) (msg : StateMessage) : ServersState :=
  (s.updatedServers msg).foldl transit s

/-- The states at the end, and all the locks. -/
def setState (s : ServersState) (msg : StateMessage) (done : ℕ → ℕ → Bool) :
    ServersState × List (MutexAction StateLock) :=
  let rest := acknowledge done (s.updatedServers msg).reverse (s.transitAll msg)
  (rest.1, s.transitLocks msg ++ rest.2)

/-! ## The locks of the first three loops -/

variable (s : ServersState) (msg : StateMessage)

/-- The state of a server is as before, or its transition was acknowledged. -/
inductive Acknowledged : Option RemapState → Option RemapState → Prop
  | same (state : Option RemapState) : Acknowledged state state
  | degraded : Acknowledged (some .intermediate) (some .waitDegraded)
  | normal : Acknowledged (some .coordinated) (some .waitNormal)

theorem Acknowledged.trans {a b c : Option RemapState} (h : Acknowledged a b)
    (h' : Acknowledged b c) : Acknowledged a c := by
  cases h with
  | same => exact h'
  | degraded =>
    cases h'
    exact .degraded
  | normal =>
    cases h'
    exact .normal

end ServersState

end MemEC.Client
