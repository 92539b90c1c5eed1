import MemEC.Common.LargeObject
import MemEC.Lib.Lists
import MemEC.Lib.Run

/-!
# Setting and getting a large value

A SET of a large value is one message for each split. A GET is sent with the plain
key, which finds the first split. The worker that handles its response asks for
all other splits. Every response is put into a buffer of the application's pending
entry, with a flag for each split, under a lock of its own. The worker whose split
completes the flags answers the application and frees the buffer.

A run interleaves these steps in any order: each response is handled in two parts,
the look-up of the entry and the part under the lock, and the loop that asks for
the other splits sends one request at a time. The servers hold what was set, and
the GET is in the normal flow, where no server is degraded.
-/

namespace MemEC.Client

open MemEC.Lib MemEC.Common LargeObjectUtil

/-! ## Messages -/

/-- A SET request or a GET response. -/
structure KeyValueMessage where
  key : List UInt8
  valueSize : ℕ
  splitOffset : ℕ
  value : List UInt8
deriving DecidableEq

variable (cfg : GlobalConfig)

/-- `Protocol::generateKeyValueHeader`, for a pointer to the part of the value at `splitOffset`. -/
def generateKeyValueHeader (key : List UInt8) (valueSize : ℕ) (value : List UInt8)
    (splitOffset splitSize : ℕ) : KeyValueMessage :=
  if splitSize = 0 ∨ splitSize = valueSize then ⟨key, valueSize, 0, value.take valueSize⟩
  else
    let splitSize := if valueSize < u32 (splitOffset + splitSize) then sub32 valueSize splitOffset
      else splitSize
    ⟨key, valueSize, splitOffset % 2 ^ 24, value.take splitSize⟩

/-- `ClientWorker::handleSetRequest`: the messages, each with the split index that chooses its
server. -/
def handleSetRequest (key value : List UInt8) : Option (List (ℕ × KeyValueMessage)) :=
  (numOfSplit cfg key.length value.length).map fun n => (List.range n).map fun splitIndex =>
    let splitOffset := getValueOffsetAtSplit cfg key.length value.length splitIndex
    (splitIndex, generateKeyValueHeader key value.length (value.drop splitOffset) splitOffset
      (splitSize cfg key.length value.length))

/-- The key under which a server knows what it was sent. -/
def KeyValueMessage.mapKey (m : KeyValueMessage) : Key :=
  if isLarge cfg m.key.length m.valueSize then Key.split m.key m.splitOffset else Key.plain m.key

/-- The response of a server to a GET. -/
def resGet (m : KeyValueMessage) : KeyValueMessage :=
  generateKeyValueHeader m.key m.valueSize m.value m.splitOffset
    (if isLarge cfg m.key.length m.valueSize then splitSize cfg m.key.length m.valueSize else 0)

/-- What the servers hold: `(server, message)`. -/
abbrev Stored := List (ℕ × KeyValueMessage)

/-- A server looks up the key of a request. -/
def findObject (stored : Stored) (server : ℕ) (key : List UInt8) : Option KeyValueMessage :=
  (lookupKeys key).findSome? fun k =>
    (stored.find? fun p => p.1 = server ∧ k = p.2.mapKey cfg).map Prod.snd

/-! ## The client -/

/-- The memory behind `key.ptr` of the application's entry. -/
structure SplitBuffer where
  flags : List Bool
  value : List UInt8
deriving DecidableEq

/-- The loop of `handleGetResponse` that asks for the other splits. -/
structure SplitLoop where
  key : List UInt8
  valueSize : ℕ
  splitSize : ℕ
  sOffset : ℕ
deriving DecidableEq

/-- A GET of an application, as far as the client has come with it. -/
structure SplitGet where
  /-- The requests whose responses are not handled: the key, and the server. -/
  requests : List (List UInt8 × ℕ)
  /-- The application's entry is in the pending map. -/
  pending : Bool
  buffer : Option SplitBuffer
  /-- The responses of workers that have looked up the entry. -/
  found : List KeyValueMessage
  loops : List SplitLoop
  /-- The workers that have seen all flags set. -/
  completed : ℕ
  /-- The responses to the application, without a value when the GET failed. -/
  answers : List (Option (List UInt8))
  /-- The offsets of the splits that are stored. -/
  stored : List ℕ
  crashed : Bool

inductive GetAction
  /-- The response to the `j`-th request is handled, up to the look-up of the entry. -/
  | respond (j : ℕ)
  /-- The part under the lock. -/
  | store (j : ℕ)
  /-- A pass of a loop. -/
  | send (j : ℕ)
  /-- A worker that has seen all flags set answers. -/
  | answer

namespace SplitGet

variable (dataServer : List UInt8 → ℕ → ℕ) (stored : Stored)

/-- After `handleGetRequest` for the application. `dataServer key i` is the server `i` places after
that of the key. -/
def start (key : List UInt8) : SplitGet where
  requests := [(key, dataServer key 0)]
  pending := true
  buffer := none
  found := []
  loops := []
  completed := 0
  answers := []
  stored := []
  crashed := false

variable (s : SplitGet)

/-- The application gets a response, when its entry is there. -/
def respondApplication (value : Option (List UInt8)) : SplitGet :=
  if s.pending then { s with pending := false, answers := s.answers ++ [value] } else s

/-- `handleGetResponse` up to the lock. -/
def handleGetResponse (key : List UInt8) (server : ℕ) : SplitGet :=
  match findObject cfg stored server key with
  | none =>
    -- Retry on original server
    if dataServer key 0 ≠ server then
      { s with requests := s.requests ++ [(key, dataServer key 0)] }
    else s.respondApplication none
  | some m =>
    let header := resGet cfg m
    if isLarge cfg header.key.length header.valueSize then
      match numOfSplit cfg header.key.length header.valueSize with
      | none => { s with crashed := true }
      | some n =>
        if s.pending then
          { s with
            buffer := s.buffer <|>
              some ⟨List.replicate n false, List.replicate header.valueSize 0⟩
            found := s.found ++ [header] }
        else s
    else s.respondApplication (some header.value)

/-- The part of `handleGetResponse` under the lock. -/
def storeSplit (header : KeyValueMessage) : SplitGet :=
  match s.buffer with
  | none => { s with crashed := true }
  | some b =>
    let splitSize := splitSize cfg header.key.length header.valueSize
    let splitIndex :=
      (getSplitIndex cfg header.key.length header.valueSize header.splitOffset).1
    let splitSize := if header.valueSize < u32 (header.splitOffset + splitSize) then
      sub32 header.valueSize header.splitOffset else splitSize
    let b : SplitBuffer :=
      ⟨b.flags.set splitIndex true, patch b.value header.splitOffset (header.value.take splitSize)⟩
    let s := { s with buffer := some b, stored := s.stored ++ [header.splitOffset] }
    if header.splitOffset = 0 then
      { s with loops := s.loops ++ [⟨header.key, header.valueSize, splitSize, splitSize⟩] }
    else
      -- Check if all split are received
      if b.flags.all id then { s with completed := s.completed + 1 } else s

/-- `handleGetRequest` for a split. `getServers` reads the key without its last three bytes, and
these. Of a key with less than three bytes it reads beyond all bounds: the size wraps around. -/
def requestSplit (key : List UInt8) : SplitGet :=
  if key.length < 3 then { s with crashed := true }
  else
    let keySize := key.length - 3
    let splitIndex := (getSplitIndex cfg keySize 0 (ofBe (key.drop keySize))).1
    { s with requests := s.requests ++ [(key, dataServer (key.take keySize) splitIndex)] }

def step : GetAction → SplitGet
  | .respond j =>
    match s.requests[j]? with
    | none => s
    | some (key, server) =>
      { s with requests := s.requests.eraseIdx j }.handleGetResponse cfg dataServer stored key
        server
  | .store j =>
    match s.found[j]? with
    | none => s
    | some header => { s with found := s.found.eraseIdx j }.storeSplit cfg header
  | .send j =>
    match s.loops[j]? with
    | none => s
    | some l =>
      if l.sOffset < l.valueSize then
        { s with
          loops := s.loops.set j { l with sOffset := u32 (l.sOffset + l.splitSize) }
          }.requestSplit cfg dataServer (splitKey l.key l.sOffset)
      else { s with loops := s.loops.eraseIdx j }
  | .answer =>
    match s.completed with
    | 0 => s
    | completed + 1 =>
      let s := { s with completed }
      if s.pending then
        match s.buffer with
        | none => { s with crashed := true }
        | some b => { s.respondApplication (some b.value) with buffer := none }
      else s

/-- What a GET promises: the value is handed to the application once and unchanged, not before all
splits were received; and when nothing is left to be done it was handed over. -/
structure Delivered (key value : List UInt8) : Prop where
  running : s.crashed = false
  once : s.answers = [] ∨ s.answers = [some value]
  received : s.answers ≠ [] → ∀ n, numOfSplit cfg key.length value.length = some n →
    ∀ i < n, getValueOffsetAtSplit cfg key.length value.length i ∈ s.stored
  finished : s.requests = [] → s.found = [] → s.loops = [] → s.completed = 0 →
    s.answers = [some value]

end SplitGet

/-- A SET of the value, and any run of a GET of it. -/
def SetAndGot (dataServer : List UInt8 → ℕ → ℕ) (key value : List UInt8) : Prop :=
  ∃ messages, handleSetRequest cfg key value = some messages ∧ ∀ actions,
    (run (SplitGet.step cfg dataServer (messages.map fun p => (dataServer key p.1, p.2)))
      (SplitGet.start dataServer key) actions).Delivered cfg key value

end MemEC.Client
