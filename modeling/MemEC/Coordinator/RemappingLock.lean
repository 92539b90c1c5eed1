import Mathlib.Tactic
import MemEC.Common.Key
import MemEC.Lib.Epoch
import MemEC.Lib.Run

/-!
# Locks for degraded SETs

A client that cannot store a key where it belongs proposes other places, and
the coordinator answers with the placement to use. Its workers handle such
requests concurrently: the proposal is filtered entry by entry with the states
the servers have at that time, and the table of the remapping records is locked
for one access at a time. What a worker does between two accesses to shared
state is one action here, and the actions of the workers interleave with each
other, with state transitions and with erasures.
-/

namespace MemEC.Coordinator

open MemEC.Common MemEC.Lib

inductive RemapState where
  | undefined
  | normal
  | intermediate
  | coordinated
  | degraded
  | waitDegraded
  | waitNormal
  deriving DecidableEq, Repr

/-- One entry of a proposal: `(list ID, chunk ID)` of the original and of the remapped place. -/
structure Remapping where
  original : ℕ × ℕ
  remapped : ℕ × ℕ
  deriving DecidableEq, Repr

abbrev RemappingRecord := List Remapping

/-- Which server has a chunk of a stripe list, and which one is the data server of a key. -/
structure StripeList where
  get : ℕ × ℕ → ℕ
  dataServer : Key → ℕ

/-! ## The records -/

structure RemappingRecordMap where
  map : KeyMap RemappingRecord
  serverToKeyMap : ℕ → KeyMap Unit

namespace RemappingRecordMap

def find (m : RemappingRecordMap) (key : Key) : Option RemappingRecord := m.map.find key

/-- `insert`, and whether the record was inserted: a record that exists is not overwritten. -/
def insert (m : RemappingRecordMap) (key : Key) (record : RemappingRecord) (server : ℕ) :
    RemappingRecordMap × Bool :=
  match m.map.find key with
  | some _ => (m, false)
  | none =>
    let keys := ((m.serverToKeyMap server).insertNew key ()).1
    ({ map := m.map.assign key record
       serverToKeyMap := Function.update m.serverToKeyMap server keys }, true)

/-- The keys among `keys` whose records are erased. -/
def erasable (m : RemappingRecordMap) (server : ℕ) : List Key.Ident :=
  (m.serverToKeyMap server).keys.filter fun id => (m.map.lookup id).isSome

/-- `erase` of all records of the keys that belong to a server. -/
def erase (m : RemappingRecordMap) (server : ℕ) : RemappingRecordMap where
  map := (m.serverToKeyMap server).keys.foldl (fun map id => map.erase id) m.map
  serverToKeyMap := Function.update m.serverToKeyMap server ∅

end RemappingRecordMap

/-! ## The handler -/

/-- Where a worker is in `handleDegradedSetLockRequest`. -/
inductive Phase where
  | filtering (kept rest : List Remapping)
  | inserting (proposal : List Remapping)
  | finding
  | done
  deriving DecidableEq, Repr

structure Handler where
  key : Key
  phase : Phase

/-- What can be observed of the handlers and of the table. An answer of `none` is a failure. -/
inductive LockEvent where
  | decided (key : Key.Ident) (isEmpty : Bool)
  | replied (key : Key.Ident) (answer : Option RemappingRecord)
  | erased (key : Key.Ident)
  deriving DecidableEq

def allowRemapping (serversState : ℕ → RemapState) (server : ℕ) : Bool :=
  serversState server = .intermediate || serversState server = .degraded

/-- The next action of a worker. The result of `map->insertKey` does not matter
(`|| true` in the condition). -/
def Handler.next (stripeList : StripeList) (serversState : ℕ → RemapState)
    (records : RemappingRecordMap) (h : Handler) :
    RemappingRecordMap × Handler × List LockEvent :=
  match h.phase with
  | .filtering kept (entry :: rest) =>
    let kept :=
      if allowRemapping serversState (stripeList.get entry.original) then kept ++ [entry] else kept
    (records, { h with phase := .filtering kept rest }, [])
  | .filtering kept [] => (records, { h with phase := .inserting kept }, [])
  | .inserting [] =>
    -- no need to insert
    (records, { h with phase := .done },
      [.decided h.key.ident true, .replied h.key.ident (some [])])
  | .inserting (entry :: rest) =>
    let (records, inserted) := records.insert h.key (entry :: rest) (stripeList.dataServer h.key)
    if inserted then
      (records, { h with phase := .done },
        [.decided h.key.ident false, .replied h.key.ident (some (entry :: rest))])
    else (records, { h with phase := .finding }, [.decided h.key.ident false])
  | .finding =>
    (records, { h with phase := .done }, [.replied h.key.ident (records.find h.key)])
  | .done => (records, h, [])

/-! ## The coordinator -/

structure LockService where
  serversState : ℕ → RemapState
  records : RemappingRecordMap
  handlers : List Handler
  log : List LockEvent

inductive LockAction where
  | receive (key : Key) (proposal : List Remapping)
  | advance (i : ℕ)
  | setState (server : ℕ) (state : RemapState)
  | erase (server : ℕ)

namespace LockService

def start (serversState : ℕ → RemapState) : LockService where
  serversState := serversState
  records := ⟨∅, fun _ => ∅⟩
  handlers := []
  log := []

def step (stripeList : StripeList) (s : LockService) : LockAction → LockService
  | .receive key proposal =>
    { s with handlers := s.handlers ++ [⟨key, .filtering [] proposal⟩] }
  | .advance i =>
    match s.handlers[i]? with
    | none => s
    | some h =>
      let r := h.next stripeList s.serversState s.records
      { s with
        records := r.1
        handlers := s.handlers.set i r.2.1
        log := s.log ++ r.2.2 }
  | .setState server state =>
    { s with serversState := Function.update s.serversState server state }
  | .erase server =>
    { s with
      records := s.records.erase server
      log := s.log ++ (s.records.erasable server).map .erased }

end LockService

/-! ## Agreement -/

/-- The record of the key is erased. -/
def erases (id : Key.Ident) (e : LockEvent) : Bool := e = .erased id

/-- Two successful replies carry the same placement. -/
def SameAnswer (id : Key.Ident) (a b : LockEvent) : Prop :=
  ∀ p q, a = .replied id (some p) → b = .replied id (some q) → p = q

/-- Two filtered proposals are both empty, or neither is. -/
def SameKind (id : Key.Ident) (a b : LockEvent) : Prop :=
  ∀ x y, a = .decided id x → b = .decided id y → x = y

/-- Between two erasures of the record of a key, all successful replies carry one placement. -/
def Agree (log : List LockEvent) : Prop := ∀ id, WithinEpochs (erases id) (SameAnswer id) log

/-- Between two erasures of the record of a key, either all filtered proposals are empty or none
is. -/
def Uniform (log : List LockEvent) : Prop := ∀ id, WithinEpochs (erases id) (SameKind id) log

end MemEC.Coordinator
