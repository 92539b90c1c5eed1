import Mathlib.Logic.Function.Basic
import Mathlib.Tactic
import MemEC.Common.ChunkPool
import MemEC.Common.KeyValue
import MemEC.Lib.Packing

/-!
# Sending an unsealed chunk back

While the server of a chunk that is not sealed was down, another one has kept
the objects that were updated and the keys that were deleted. It sends them back
in SET_CHUNK_UNSEALED messages: the deleted keys first, as many as there is room
for, and then the objects. What is sent is erased. The server of the chunk
deletes the keys and overwrites the values.

A step has no result where the code reads behind the end of an object or fails
an assertion.
-/

namespace MemEC.Server

open MemEC.Common MemEC.Lib

variable {cfg : GlobalConfig}

/-- `DegradedMap::unsealed`. -/
structure Unsealed (cfg : GlobalConfig) where
  values : KeyMap (Object cfg)
  /-- The keys of a chunk, in the order in which `equal_range` gives them. -/
  metadataRev : Metadata → List Key
  deleted : KeyMap Key

namespace Unsealed

/-- `deleted->erase` and `metadataRev->erase`. -/
def eraseDeleted (metadata : Metadata) (u : Unsealed cfg) (key : Key) : Unsealed cfg :=
  { u with
    deleted := u.deleted.eraseKey key
    metadataRev := Function.update u.metadataRev metadata ((u.metadataRev metadata).erase key) }

/-- `values->erase` and `metadataRev->erase`. -/
def eraseValue (metadata : Metadata) (u : Unsealed cfg) (key : Key) : Unsealed cfg :=
  { u with
    values := u.values.eraseKey key
    metadataRev := Function.update u.metadataRev metadata ((u.metadataRev metadata).erase key) }

end Unsealed

/-! ## The encoder -/

/-- What has been written behind the headers, and what the message's own header will say. -/
structure Encoder where
  data : List UInt8
  numDeleted : ℕ
  numValues : ℕ
  isCompleted : Bool
  deriving DecidableEq

/-- `PROTO_HEADER_SIZE` and `PROTO_CHUNK_KEY_VALUE_SIZE` come first. -/
def Encoder.bytes (e : Encoder) : ℕ := 16 + 21 + e.data.length

/-- A deleted key in a message. -/
def keyRecord (key : Key) : List UInt8 := UInt8.ofNat key.size :: key.data.take key.size

def keyRecordSize (key : Key) : ℕ := 1 + key.size

/-- `PROTO_KEY_VALUE_SIZE + keySize + valueSize`. -/
def recordSize (o : Object cfg) : ℕ := 4 + o.key.length + o.valueSize

/-- `objSize`. -/
def objSize (o : Object cfg) : ℕ := if o.isLarge then recordSize o + 3 else recordSize o

/-- `ChunkKeyValueHeader`, and the data behind it. -/
structure ChunkKeyValueMessage where
  metadata : Metadata
  deleted : ℕ
  count : ℕ
  isCompleted : Bool
  data : List UInt8

inductive ObjectOp where
  | delete (key : Key)
  | update (key : Key) (value : List UInt8)
  deriving DecidableEq

/-- `objects` is what the map of the keys and the chunks hold: under a key the value of its object.
`log` has what was done to the objects. -/
structure OriginalServer where
  objects : KeyMap (List UInt8)
  log : List ObjectOp

namespace OriginalServer

/-- `Map::deleteKey` and `ChunkUtil::deleteObject`. -/
def deleteKey (s : OriginalServer) (key : Key) : OriginalServer :=
  match s.objects.find key with
  | none => s
  | some _ => ⟨s.objects.eraseKey key, s.log ++ [.delete key]⟩

/-- `Map::findObject` and the copy into the value that it finds. -/
def updateValue (s : OriginalServer) (key : Key) (value : List UInt8) : Option OriginalServer :=
  match s.objects.find key with
  | none => some s
  | some old =>
    -- assert( valueSize == keyValueHeader.valueSize )
    if old.length ≠ value.length then none
    else some ⟨s.objects.assign key value, s.log ++ [.update key value]⟩

end OriginalServer

namespace ChunkKeyValueMessage

/-- The key of a record, and the bytes behind the record. -/
def parseKeyHeader : List UInt8 → Option (Key × List UInt8)
  | [] => none
  | keySize :: buf =>
    if buf.length < keySize.toNat then none
    else some (.plain (buf.take keySize.toNat), buf.drop keySize.toNat)

/-- The key and the value of a record, and the bytes behind the record. Splits are not enabled. -/
def parseKeyValueHeader (buf : List UInt8) : Option (Key × List UInt8 × List UInt8) :=
  if buf.length < 4 then none
  else
    let keySize := (buf.headD 0).toNat
    let valueSize := ofBe ((buf.drop 1).take 3)
    let buf := buf.drop 4
    if buf.length < keySize + valueSize then none
    else
      some (.plain (buf.take keySize), (buf.drop keySize).take valueSize,
        buf.drop (keySize + valueSize))

end ChunkKeyValueMessage

open ChunkKeyValueMessage

/-- The loop over the deleted keys, and the bytes that it leaves. -/
def deleteKeys : ℕ → List UInt8 → OriginalServer → OriginalServer × List UInt8
  | 0, buf, s => (s, buf)
  | n + 1, buf, s =>
    match parseKeyHeader buf with
    | none => (s, buf)
    | some (key, buf) => deleteKeys n buf (s.deleteKey key)

/-- The loop over the objects. -/
def updateValues : ℕ → List UInt8 → OriginalServer → Option OriginalServer
  | 0, _, s => some s
  | n + 1, buf, s =>
    match ChunkKeyValueMessage.parseKeyValueHeader buf with
    | none => some s
    | some (key, value, buf) => do
      let s ← s.updateValue key value
      updateValues n buf s

/-- The part of the handler for a data chunk that is not sealed. -/
def handleSetChunkRequest (s : OriginalServer) (m : ChunkKeyValueMessage) : Option OriginalServer :=
  let (s, buf) := deleteKeys m.deleted m.data s
  updateValues m.count buf s

/-! ## The messages of a chunk -/

end MemEC.Server
