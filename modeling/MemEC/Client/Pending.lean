import Mathlib.Data.Fin.Basic
import MemEC.Common.Fanout
import MemEC.Lib.Multimap

/-!
# The pending requests of a client

A client keeps a request of an application until it is answered, and one entry
for each message that it has sent to a server for it. The maps are multimaps
whose keys compare the instance ID and the request ID alone, so an entry is
looked up with its IDs and then with its key.
-/

namespace MemEC.Client

open MemEC.Lib MemEC.Common

/-- The value of a timestamp counter: a `uint32_t`. -/
abbrev TimestampValue := Fin (2 ^ 32)

instance neZero_timestamps : NeZero (2 ^ 32) := ⟨by decide⟩

/-- A pending identifier with its timestamp. -/
structure TimedIdentifier extends PendingIdentifier where
  timestamp : TimestampValue
  deriving DecidableEq

/-- An `unordered_multimap`, as the list of its entries. Entries with the same IDs stand in the
order in which `equal_range` gives them; a new entry comes first among them, as in libstdc++. -/
abbrev EntryMap (V : Type) := List (TimedIdentifier × V)

structure KeyValueBackup where
  key : List UInt8
  value : List UInt8
  deriving DecidableEq

structure KeyValueUpdate where
  key : List UInt8
  offset : ℕ
  length : ℕ
  value : List UInt8
  remaining : ℕ
  deriving DecidableEq

namespace EntryMap

variable {V : Type}

/-- `SEARCH_KEY_RANGE`: what the entry must be. Without a socket (`ptr` is 0) or a key, these are
not compared; the bytes of the key are compared up to the size of the key of the entry. -/
def isEntry (key : V → List UInt8) (instanceId requestId ptr : ℕ) (checkKey : Option (List UInt8))
    (e : TimedIdentifier × V) : Bool :=
  e.1.is instanceId requestId && (ptr == 0 || e.1.ptr == ptr) &&
    match checkKey with
    | none => true
    | some k => strncmp (key e.2).length k (key e.2) == 0

/-- The first entry with the property is handed out, as `taken` changes it. It is erased, or
`stays` in this form. -/
def eraseEntry (taken : V → V) (stays : V → Bool) (p : TimedIdentifier × V → Bool)
    (m : EntryMap V) : Option ((TimedIdentifier × V) × EntryMap V) :=
  (m.find? p).map fun e =>
    ((e.1, taken e.2),
      if stays (taken e.2) then m.set (m.findIdx p) (e.1, taken e.2) else m.eraseP p)

/-- `Pending::count`. -/
def count (m : EntryMap V) (instanceId requestId : ℕ) : ℕ :=
  m.countP fun e => e.1.is instanceId requestId

end EntryMap

/-! ## The methods -/

/-- `Pending::eraseKey`. -/
def eraseKey (instanceId requestId ptr : ℕ) (checkKey : Option (List UInt8)) :
    EntryMap (List UInt8) → Option ((TimedIdentifier × List UInt8) × EntryMap (List UInt8)) :=
  EntryMap.eraseEntry id (fun _ => false) (EntryMap.isEntry id instanceId requestId ptr checkKey)

/-- `Pending::eraseKeyValue`. -/
def eraseKeyValue (instanceId requestId ptr : ℕ) (checkKey : Option (List UInt8)) :
    EntryMap KeyValueBackup → Option ((TimedIdentifier × KeyValueBackup) × EntryMap KeyValueBackup) :=
  EntryMap.eraseEntry id (fun _ => false)
    (EntryMap.isEntry KeyValueBackup.key instanceId requestId ptr checkKey)

/-- One message of an update of an application was answered. -/
def KeyValueUpdate.decrement (u : KeyValueUpdate) : KeyValueUpdate :=
  { u with remaining := if u.remaining = 0 then UInt32.size - 1 else u.remaining - 1 }

/-- `Pending::eraseKeyValueUpdate` for `PT_APPLICATION_UPDATE`: the entry is erased when no message
remains. -/
def eraseKeyValueUpdate (instanceId requestId ptr : ℕ) (checkKey : Option (List UInt8)) :
    EntryMap KeyValueUpdate → Option ((TimedIdentifier × KeyValueUpdate) × EntryMap KeyValueUpdate) :=
  EntryMap.eraseEntry KeyValueUpdate.decrement (fun u => u.remaining != 0)
    (EntryMap.isEntry KeyValueUpdate.key instanceId requestId ptr checkKey)

/-- `pending.applications`. -/
structure ApplicationMaps where
  set : EntryMap KeyValueBackup
  get : EntryMap (List UInt8)
  update : EntryMap KeyValueUpdate
  del : EntryMap (List UInt8)

/-! ## Replayed requests -/

/-- The request in a `RequestInfo`: its opcode and the member of the union for it. -/
inductive ReplayRequest where
  | set (keyValue : KeyValueBackup)
  | get (key : List UInt8)
  | update (key : List UInt8) (offset length : ℕ) (value : List UInt8)
  | delete (key : List UInt8)
  deriving DecidableEq

inductive RequestOpcode where
  | set
  | get
  | update
  | delete
  deriving DecidableEq

namespace ReplayRequest

def opcode : ReplayRequest → RequestOpcode
  | .set _ => .set
  | .get _ => .get
  | .update .. => .update
  | .delete _ => .delete

def key : ReplayRequest → List UInt8
  | .set keyValue => keyValue.key
  | .get key => key
  | .update key .. => key
  | .delete key => key

end ReplayRequest

def KeyValueUpdate.request (u : KeyValueUpdate) : ReplayRequest :=
  .update u.key u.offset u.length u.value

theorem KeyValueUpdate.request_decrement (u : KeyValueUpdate) :
    u.decrement.request = u.request := rfl

structure RequestInfo where
  application : ℕ
  instanceId : ℕ
  requestId : ℕ
  request : ReplayRequest
  deriving DecidableEq

/-- The event that makes a worker handle a request once more. -/
structure ApplicationEvent where
  socket : ℕ
  instanceId : ℕ
  requestId : ℕ
  replay : ReplayRequest
  deriving DecidableEq

/-- `replaySetRequest`, `replayGetRequest`, `replayUpdateRequest` and `replayDeleteRequest`. -/
def RequestInfo.event (r : RequestInfo) : ApplicationEvent :=
  ⟨r.application, r.instanceId, r.requestId, r.request⟩

end MemEC.Client
