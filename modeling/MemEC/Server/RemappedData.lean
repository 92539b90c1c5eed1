import MemEC.Lib.Run
import Mathlib.Data.List.Basic
import Mathlib.Tactic

/-!
# The migration of remapped data

When a server is back, the coordinator asks the servers that stood in for it to
send it the objects that they keep for it (PARITY_MIGRATE). A server keeps such
objects in two places: in `Pending::serverPeers.remappedData`, by target, and in
the remapped buffer. `handleRemappedData` sends the objects of the first, then
those of the second, as SET requests that all have one request ID, and
`handleSetResponse` counts the responses down. When the count gets to zero the
coordinator is told that the migration is over.

A request ID is not given to two migrations, so what is known of one ID is a
state of its own here. `decrementRemapDataRequest` reads the parent IDs from the
entry after it has erased it; what this reads is `erasedId`. The counts are
natural numbers. There is one coordinator.
-/

namespace MemEC.Server

open MemEC.Lib

/-- The IDs of the PARITY_MIGRATE request. -/
structure MigrateId where
  instanceId : ℕ
  requestId : ℕ
deriving DecidableEq, Repr

/-- Objects that are kept for a target: `insertRemapData` makes a set when it has an object. -/
abbrev RemappedSet (Obj : Type) := { objs : List Obj // objs ≠ [] }

/-- A request, and what its handling depends on. -/
structure MigrateRequest (Srv : Type) where
  id : MigrateId
  /-- `socket`, which is null when no server has the address of the request. -/
  socket : Option Srv
  /-- `StripeList::get`. -/
  stripeList : ℕ × ℕ → Srv
  /-- What is read from an entry that has been erased. -/
  erasedId : MigrateId → MigrateId

/-- An entry of the remapped buffer. -/
structure RemappedKeyValue (Obj : Type) where
  listId : ℕ
  chunkId : ℕ
  keyValue : Obj

/-- Where `handleRemappedData` is. -/
inductive MigrateStage (Obj : Type)
  | start
  /-- In the loop over the objects kept for the target. -/
  | sendData (rest : List Obj)
  /-- Before the remapped buffer is scanned. -/
  | scan (found : Bool)
  /-- In the loop over the remapped buffer, in which `kept` stays. -/
  | sendKeys (found : Bool) (count : ℕ) (kept rest : List (RemappedKeyValue Obj))
  | done
  /-- The socket that is printed along with the answer is null. -/
  | crashed

/-- A migration, with everything that is known of its request ID. -/
structure Migration (Obj : Type) where
  /-- The objects that are kept for the target. -/
  remappedData : Option (RemappedSet Obj)
  /-- `remappedBuffer->keys`. -/
  keys : List (RemappedKeyValue Obj)
  stage : MigrateStage Obj
  /-- The entry of `remappedDataRequest`. -/
  counter : Option ℕ
  /-- The SET requests without a response. -/
  flying : List Obj
  /-- The PARITY_MIGRATE responses, by the IDs that they carry. -/
  responses : List MigrateId

inductive MigrateAction where
  /-- `handleRemappedData` goes on. -/
  | handle
  /-- The response to SET request `j` is handled. -/
  | respond (j : ℕ)
deriving DecidableEq, Repr

/-- `Pending::insertRemapDataRequest`. -/
def insertRemapDataRequest (counter : Option ℕ) (requestCount : ℕ) : Option ℕ :=
  match counter with
  | none => some requestCount
  | some n => some n

/-- `Pending::decrementRemapDataRequest`, and whether the count has got to zero. -/
def decrementRemapDataRequest (counter : Option ℕ) : Option ℕ × Bool :=
  match counter with
  | none => (none, false)
  | some n => if n - 1 = 0 then (none, true) else (some (n - 1), false)

namespace MigrateRequest

variable {Srv Obj : Type} [DecidableEq Srv] (req : MigrateRequest Srv)

/-- The object is to be sent to the target. -/
def targets (v : RemappedKeyValue Obj) : Bool :=
  req.socket = some (req.stripeList (v.listId, v.chunkId))

/-- The end of `handleRemappedData`. -/
def finish (m : Migration Obj) (found : Bool) (count : ℕ) : Migration Obj :=
  if !(found && req.socket.isSome) && count = 0 then
    { m with
      responses := m.responses ++ [req.id]
      stage := if req.socket.isSome then .done else .crashed }
  else { m with stage := .done }

/-- `handleRemappedData`, up to the next point at which a response may be handled. -/
def handleRemappedData (m : Migration Obj) : Migration Obj :=
  match m.stage with
  | .start =>
    match m.remappedData, req.socket with
    | some data, some _ =>
      { m with
        remappedData := none
        counter := insertRemapDataRequest m.counter data.val.length
        stage := .sendData data.val }
    | data, _ => { m with remappedData := none, stage := .scan data.isSome }
  | .sendData (obj :: rest) => { m with flying := m.flying ++ [obj], stage := .sendData rest }
  | .sendData [] => { m with stage := .scan true }
  | .scan found =>
    let count := (m.keys.filter req.targets).length
    { m with
      counter := insertRemapDataRequest m.counter count
      stage := .sendKeys found count [] m.keys }
  | .sendKeys found count kept (v :: rest) =>
    if req.targets v then
      { m with
        flying := m.flying ++ [v.keyValue]
        keys := kept ++ rest
        stage := .sendKeys found count kept rest }
    else { m with stage := .sendKeys found count (kept ++ [v]) rest }
  | .sendKeys found count _ [] => req.finish m found count
  | .done => m
  | .crashed => m

/-- `handleSetResponse`. -/
def handleSetResponse (m : Migration Obj) (flying : List Obj) : Migration Obj :=
  let (counter, isLast) := decrementRemapDataRequest m.counter
  { m with
    flying
    counter
    responses := if isLast then m.responses ++ [req.erasedId req.id] else m.responses }

def step (m : Migration Obj) : MigrateAction → Migration Obj
  | .handle => req.handleRemappedData m
  | .respond j => if j < m.flying.length then req.handleSetResponse m (m.flying.eraseIdx j) else m

end MigrateRequest

/-- The state in which the request comes in. -/
def Migration.init {Obj : Type} (remappedData : Option (RemappedSet Obj))
    (keys : List (RemappedKeyValue Obj)) : Migration Obj :=
  ⟨remappedData, keys, .start, none, [], []⟩

end MemEC.Server
