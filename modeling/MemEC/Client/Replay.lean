import MemEC.Client.Pending

/-!
# Replaying the requests of a failed server

When a server gets degraded, the entries that a client keeps for it are erased
and the requests of the applications behind them move into a map ordered by
their timestamps. From the oldest one on they are then put into the event
queue, once around the counter of the timestamps.
-/

namespace MemEC.Client

open MemEC.Lib MemEC.Common

/-- A request of an application as it is found in the pending maps. -/
structure ApplicationRequest where
  pid : TimedIdentifier
  request : ReplayRequest
  deriving DecidableEq

/-- `RequestInfo::set`. -/
def ApplicationRequest.info (a : ApplicationRequest) : RequestInfo :=
  ⟨a.pid.ptr, a.pid.instanceId, a.pid.requestId, a.request⟩

def ApplicationRequest.event (a : ApplicationRequest) : ApplicationEvent := a.info.event

/-- A `std::map` from timestamps to requests. -/
abbrev RequestMap := Multimap (Prod.fst : TimestampValue × RequestInfo → TimestampValue)

/-! ## The search in the pending maps -/

/-- The uses of `SEARCH_MAP_FOR_REQUEST`, for the values `V` of the entries of the servers and `A`
of those of the applications. -/
structure ReplayKind (V A : Type) where
  opcode : RequestOpcode
  serverKey : V → List UInt8
  key : A → List UInt8
  erase : ℕ → ℕ → ℕ → Option (List UInt8) → EntryMap A → Option ((TimedIdentifier × A) × EntryMap A)
  request : A → ReplayRequest
  taken : A → A
  stays : A → Bool
  erase_eq : ∀ instanceId requestId ptr checkKey m, erase instanceId requestId ptr checkKey m =
    EntryMap.eraseEntry taken stays (EntryMap.isEntry key instanceId requestId ptr checkKey) m
  opcode_request : ∀ a, (request a).opcode = opcode
  key_request : ∀ a, (request a).key = key a
  request_taken : ∀ a, request (taken a) = request a

namespace ReplayKind

def set : ReplayKind (List UInt8) KeyValueBackup where
  opcode := .set
  serverKey := id
  key := KeyValueBackup.key
  erase := eraseKeyValue
  request := .set
  taken := id
  stays := fun _ => false
  erase_eq := fun _ _ _ _ _ => rfl
  opcode_request := fun _ => rfl
  key_request := fun _ => rfl
  request_taken := fun _ => rfl

def get : ReplayKind (List UInt8) (List UInt8) where
  opcode := .get
  serverKey := id
  key := id
  erase := eraseKey
  request := .get
  taken := id
  stays := fun _ => false
  erase_eq := fun _ _ _ _ _ => rfl
  opcode_request := fun _ => rfl
  key_request := fun _ => rfl
  request_taken := fun _ => rfl

def update : ReplayKind KeyValueUpdate KeyValueUpdate where
  opcode := .update
  serverKey := KeyValueUpdate.key
  key := KeyValueUpdate.key
  erase := eraseKeyValueUpdate
  request := KeyValueUpdate.request
  taken := KeyValueUpdate.decrement
  stays := fun u => u.remaining != 0
  erase_eq := fun _ _ _ _ _ => rfl
  opcode_request := fun _ => rfl
  key_request := fun _ => rfl
  request_taken := KeyValueUpdate.request_decrement

def delete : ReplayKind (List UInt8) (List UInt8) where
  opcode := .delete
  serverKey := id
  key := id
  erase := eraseKey
  request := .delete
  taken := id
  stays := fun _ => false
  erase_eq := fun _ _ _ _ _ => rfl
  opcode_request := fun _ => rfl
  key_request := fun _ => rfl
  request_taken := fun _ => rfl

end ReplayKind

/-- The requests that were found, and the times from which the replay can start. -/
structure ReplaySearch where
  map : RequestMap
  smallestTime : TimestampValue
  smallestTimeAfterCurrent : TimestampValue

/-- A request is inserted into the set for replay; a request with the same timestamp stays. -/
def ReplaySearch.add (currentTime : TimestampValue) (s : ReplaySearch) (a : ApplicationRequest) :
    ReplaySearch where
  map := s.map.insertNew (a.pid.timestamp, a.info)
  smallestTime := if a.pid.timestamp < s.smallestTime then a.pid.timestamp else s.smallestTime
  smallestTimeAfterCurrent :=
    if currentTime < a.pid.timestamp ∧ (a.pid.timestamp < s.smallestTimeAfterCurrent ∨
        s.smallestTimeAfterCurrent = currentTime) then a.pid.timestamp
    else s.smallestTimeAfterCurrent

/-- The identifier of a request that is inserted again: the timestamp is left to its default. -/
def TimedIdentifier.reinserted (pid : TimedIdentifier) : TimedIdentifier where
  instanceId := pid.instanceId
  parentInstanceId := pid.instanceId
  requestId := pid.requestId
  parentRequestId := pid.requestId
  ptr := pid.ptr
  timestamp := 0

/-- The loop of `SEARCH_MAP_FOR_REQUEST`. It has passed the entries `kept` and goes on to the rest.
An entry whose backup is not found is kept. -/
def ReplayKind.searchMap {V A : Type} (k : ReplayKind V A) (server : ℕ)
    (currentTime : TimestampValue) (kept : EntryMap V) :
    EntryMap V → EntryMap A → ReplaySearch → EntryMap V × EntryMap A × ReplaySearch
  | [], applications, s => (kept, applications, s)
  | e :: todo, applications, s =>
    if e.1.ptr ≠ server then k.searchMap server currentTime (kept ++ [e]) todo applications s
    else
      match k.erase e.1.parentInstanceId e.1.parentRequestId 0 (some (k.serverKey e.2))
        applications with
      | none => k.searchMap server currentTime (kept ++ [e]) todo applications s
      | some ((pid, value), applications) =>
        let others := EntryMap.count (kept ++ e :: todo) e.1.instanceId e.1.requestId
        -- The backup is needed again when other replicas of the request are pending.
        let applications :=
          if 1 < others then (pid.reinserted, value) :: applications else applications
        k.searchMap server currentTime kept todo applications
          (s.add currentTime ⟨pid, k.request value⟩)

/-! ## Preparing and replaying -/

structure ServerMaps where
  set : EntryMap (List UInt8)
  get : EntryMap (List UInt8)
  update : EntryMap KeyValueUpdate
  del : EntryMap (List UInt8)

/-- The pending requests, with the replay members for one server. -/
structure Pending where
  applications : ApplicationMaps
  servers : ServerMaps
  requests : Option RequestMap
  requestsStartTime : Option TimestampValue

namespace Pending

variable (p : Pending) (server : ℕ) (currentTime : TimestampValue)

/-- `ClientWorker::replayRequestPrepare`. The test for an empty `replay.requests` looks at the
servers, of which there is one. -/
def replayRequestPrepare : Pending :=
  let s : ReplaySearch := ⟨p.requests.getD Multimap.empty, currentTime, currentTime⟩
  let (set, setBackups, s) :=
    ReplayKind.set.searchMap server currentTime [] p.servers.set p.applications.set s
  let (get, getBackups, s) :=
    ReplayKind.get.searchMap server currentTime [] p.servers.get p.applications.get s
  let (update, updateBackups, s) :=
    ReplayKind.update.searchMap server currentTime [] p.servers.update p.applications.update s
  let (del, delBackups, s) :=
    ReplayKind.delete.searchMap server currentTime [] p.servers.del p.applications.del s
  { applications := ⟨setBackups, getBackups, updateBackups, delBackups⟩
    servers := ⟨set, get, update, del⟩
    requests := some s.map
    requestsStartTime :=
      if s.smallestTimeAfterCurrent = currentTime then some s.smallestTime
      -- wrapped around case
      else if currentTime < s.smallestTimeAfterCurrent then some s.smallestTimeAfterCurrent
      else p.requestsStartTime }

/-- The loop of `replayRequest`: the iterator `lit` goes around until it is at `rit` again. There is
no result when it is dereferenced at the end, or not back after as many passes as given. -/
def replayLoop (entries : List (TimestampValue × RequestInfo)) (rit : ℕ) :
    ℕ → ℕ → List ApplicationEvent → Option (List ApplicationEvent × ℕ)
  | 0, _, _ => none
  | passes + 1, lit, queued =>
    match entries[lit]? with
    | none => none
    | some entry =>
      let queued := queued ++ [entry.2.event]
      let lit := if lit + 1 = entries.length then 0 else lit + 1
      if lit ≠ rit ∧ lit ≠ entries.length then replayLoop entries rit passes lit queued
      else some (queued, lit)

/-- `ClientWorker::replayRequest`, with the events that it puts into the queue. There is no result
when an end iterator is dereferenced. -/
def replayRequest : Option (List ApplicationEvent × Pending) :=
  match p.requests, p.requestsStartTime with
  | some map, some startTime =>
    if map.entries = [] then some ([], p)
    else
      let rit := map.entries.findIdx fun entry => entry.1 = startTime
      match replayLoop map.entries rit map.entries.length rit [] with
      | none => none
      | some (queued, lit) =>
        -- The last request is read again for a message.
        match map.entries[(if lit = 0 then map.entries.length else lit) - 1]? with
        | none => none
        | some _ =>
          some (queued, { p with requests := some Multimap.empty, requestsStartTime := none })
  | _, _ => some ([], p)

/-- `replayRequestPrepare` followed by `replayRequest`. -/
def replay : Option (List ApplicationEvent × Pending) :=
  (p.replayRequestPrepare server currentTime).replayRequest

end Pending

/-! ## What a replay is for -/

/-- An entry of the pending maps of the servers. -/
structure ServerEntry where
  opcode : RequestOpcode
  pid : TimedIdentifier
  key : List UInt8
  deriving DecidableEq

/-- The event is for the request that the entry belongs to, as far as IDs and keys tell. -/
def ServerEntry.fits (e : ServerEntry) (event : ApplicationEvent) : Bool :=
  event.replay.opcode = e.opcode && event.instanceId = e.pid.parentInstanceId &&
    event.requestId = e.pid.parentRequestId &&
    strncmp event.replay.key.length e.key event.replay.key == 0

namespace ReplayKind

variable {V A : Type} (k : ReplayKind V A)

def entry (e : TimedIdentifier × V) : ServerEntry := ⟨k.opcode, e.1, k.serverKey e.2⟩

def backup (a : TimedIdentifier × A) : ApplicationRequest := ⟨a.1, k.request a.2⟩

/-- The entries of a server. -/
def entries (server : ℕ) (m : EntryMap V) : List ServerEntry :=
  (m.filter fun e => e.1.ptr = server).map k.entry

end ReplayKind

namespace Pending

variable (p : Pending) (server : ℕ) (currentTime : TimestampValue)

/-- What is pending for a server. -/
def serverEntries : List ServerEntry :=
  ReplayKind.set.entries server p.servers.set ++ ReplayKind.get.entries server p.servers.get ++
    ReplayKind.update.entries server p.servers.update ++
    ReplayKind.delete.entries server p.servers.del

def applicationRequests : RequestOpcode → List ApplicationRequest
  | .set => p.applications.set.map ReplayKind.set.backup
  | .get => p.applications.get.map ReplayKind.get.backup
  | .update => p.applications.update.map ReplayKind.update.backup
  | .delete => p.applications.del.map ReplayKind.delete.backup

/-- The request of an application that an entry belongs to. -/
def request (e : ServerEntry) : Option ApplicationRequest :=
  (p.applicationRequests e.opcode).find? fun a => e.fits a.event

/-- The entries of a server with their requests. -/
def requestsOf : List (ServerEntry × ApplicationRequest) :=
  (p.serverEntries server).filterMap fun e => (p.request e).map fun a => (e, a)

/-- How long ago a timestamp was given out, if the counter has gone around at most once since. -/
def age (currentTime timestamp : TimestampValue) : TimestampValue := currentTime - timestamp

/-- What a replay promises: the events are those of the entries of the server, from the oldest on,
one for each; nothing stays in the maps of the servers. -/
structure Replayed (queued : List ApplicationEvent) (p' : Pending) : Prop where
  ordered : ∃ order : List (ServerEntry × ApplicationRequest),
    (order.map Prod.fst).Perm (p.serverEntries server) ∧
    (∀ x ∈ order, p.request x.1 = some x.2) ∧
    (order.Pairwise fun x y =>
      age currentTime y.2.pid.timestamp ≤ age currentTime x.2.pid.timestamp) ∧
    queued = order.map fun x => x.2.event
  once : ∀ e ∈ p.serverEntries server, queued.countP e.fits = 1
  cleared : p'.serverEntries server = []

/-- The entries of a server belong to requests of their own with different timestamps. -/
structure Separate : Prop where
  found : ∀ e ∈ p.serverEntries server, ∃ a, p.request e = some a
  apart : (p.requestsOf server).Pairwise fun x y =>
    x.2.pid.timestamp ≠ y.2.pid.timestamp ∧ x.1.fits y.2.event = false ∧
      y.1.fits x.2.event = false

end Pending

end MemEC.Client
