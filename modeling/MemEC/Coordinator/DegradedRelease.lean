import Mathlib.Data.Fintype.Basic
import Mathlib.Data.List.AList
import Mathlib.Data.List.GetD
import Mathlib.Tactic
import MemEC.Common.ChunkPool
import MemEC.Coordinator.DegradedLockSpec

/-!
# The release of degraded locks

The coordinator groups the lost chunks of all locks by the chunk that stands in
for each, exchanges the table with the one of the locks that are being released,
and asks the servers of the groups, one after the other, to send the chunks
back. A server answers with a count as soon as no SET_CHUNK request of its own
is outstanding. Requests, SET_CHUNK responses and answers are handled in any
order, also while the coordinator is still sending.

The request ID of a release is not used by another one. Counts are natural
numbers.
-/

namespace MemEC.Coordinator

open MemEC.Common MemEC.Lib

/-! ## The table -/

/-- What a lock of a stripe holds: every lost chunk is one of the stripe, and comes once. -/
structure StripeLock (stripe : ListStripe) where
  entries : List LockEntry
  nodup : (entries.map LockEntry.original).Nodup
  listId_eq : ∀ e ∈ entries, e.original.1 = stripe.listId

/-- `degradedLocks` and `releasingDegradedLocks`, each lock as the entries in its arrays. -/
abbrev LockTable := AList StripeLock

/-- A chunk that is sent back, and the chunk whose server has it. -/
structure Move where
  src : Metadata
  /-- `(list ID, chunk ID)`: the stripe ID is not set. -/
  dst : ℕ × ℕ
  deriving DecidableEq

/-- The body of the loop over the entries of a lock. -/
def StripeLock.moves {stripe : ListStripe} (lock : StripeLock stripe) : List Move :=
  lock.entries.map fun e => ⟨⟨e.original.1, stripe.stripeId, e.original.2⟩, e.reconstructed⟩

def LockTable.moves (t : LockTable) : List Move := t.entries.flatMap fun e => e.2.moves

/-- An entry of `chunks`. -/
structure ReleaseGroup where
  dst : ℕ × ℕ
  srcs : List Metadata
  srcs_ne : srcs ≠ []

def addSource (m : Move) : List ReleaseGroup → List ReleaseGroup
  | [] => [⟨m.dst, [m.src], List.cons_ne_nil _ _⟩]
  | g :: gs =>
    if g.dst = m.dst then ⟨g.dst, g.srcs ++ [m.src], List.append_ne_nil_of_left_ne_nil g.srcs_ne _⟩ :: gs
    else g :: addSource m gs

/-- `chunks`, when the loop over the locks ends. -/
def groups (moves : List Move) : List ReleaseGroup := moves.foldl (fun gs m => addSource m gs) []

/-! ## Messages -/

/-- The number of chunks that `generateDegradedReleaseReqHeader` writes. -/
def fitted (bufferSize bytes : ℕ) : List Metadata → ℕ
  | [] => 0
  | _ :: chunks =>
    if bytes + 12 ≤ bufferSize then fitted bufferSize (bytes + 12) chunks + 1 else 0

/-- The chunks in the message and the chunks that remain in `chunks`. The message is the last one
when none remains. -/
def generateDegradedReleaseReqHeader (bufferSize : ℕ) (chunks : List Metadata) :
    List Metadata × List Metadata :=
  (chunks.take (fitted bufferSize 0 chunks), chunks.drop (fitted bufferSize 0 chunks))

/-- The group with the chunks that remain: the inner loop ends when there is none. -/
def remaining (dst : ℕ × ℕ) : List Metadata → Option ReleaseGroup
  | [] => none
  | src :: srcs => some ⟨dst, src :: srcs, List.cons_ne_nil _ _⟩

/-! ## The pending entries -/

/-- `Pending::addReleaseDegradedLock` of the coordinator, on the count of the request ID. -/
def addReleaseDegradedLock (pending : Option ℕ) (count : ℕ) : Option ℕ :=
  match pending with
  | none => some count
  | some n => some (n + count)

/-- `Pending::removeReleaseDegradedLock`, and whether there is a condition to be signalled. -/
def removeReleaseDegradedLock (pending : Option ℕ) (count : ℕ) : Option ℕ × Bool :=
  match pending with
  | none => (none, false)
  | some n => if n - count = 0 then (none, true) else (some (n - count), false)

/-- The entry at a server. -/
structure PendingDegradedLock where
  count : ℕ
  total : ℕ
  deriving DecidableEq, Repr

def insertReleaseDegradedLock (pending : Option PendingDegradedLock) (count : ℕ) :
    PendingDegradedLock :=
  match pending with
  | none => ⟨count, count⟩
  | some p => ⟨p.count + count, p.total + count⟩

/-- The entry after `Pending::eraseReleaseDegradedLock`, and the total to be reported when nothing
remains. -/
def eraseReleaseDegradedLock (p : PendingDegradedLock) (count : ℕ) :
    PendingDegradedLock × Option ℕ :=
  if p.count - count = 0 then (⟨p.count - count, 0⟩, some p.total)
  else (⟨p.count - count, p.total⟩, none)

/-! ## A release -/

structure ReleaseConfig (Srv : Type) where
  /-- The server of a chunk in a stripe list. -/
  serverOf : ℕ × ℕ → Srv
  bufferSize : ℕ
  bufferSize_ge : 12 ≤ bufferSize

/-- A release, with everything that is known of its request ID. -/
structure Release (Srv : Type) where
  /-- The table that is released. -/
  locks : LockTable
  /-- What the loop has not come to yet. -/
  unsent : List ReleaseGroup
  /-- The current group, with the chunks that are not sent yet. -/
  sending : Option ReleaseGroup
  /-- The count at the coordinator. -/
  pending : Option ℕ
  /-- Requests that their server has not handled. -/
  requests : List (Srv × List Metadata)
  atServer : Srv → Option PendingDegradedLock
  /-- SET_CHUNK requests of the servers without a response. -/
  storing : List (Srv × Metadata)
  /-- Responses that the coordinator has not handled. -/
  responses : List (Srv × ℕ)
  /-- How often the waiting transition was signalled. -/
  signals : ℕ
  sent : List Move
  /-- The chunks that a server has reported to the coordinator. -/
  reported : Srv → ℕ

inductive ReleaseEvent where
  /-- The loop turns to group `j` of those that remain. -/
  | add (j : ℕ)
  /-- A message is sent to the server of the current group. -/
  | send
  /-- A server handles request `j`. -/
  | receive (j : ℕ)
  /-- A server handles the response to SET_CHUNK request `j`. -/
  | stored (j : ℕ)
  /-- The coordinator handles response `j`. -/
  | respond (j : ℕ)
  deriving DecidableEq, Repr

namespace Release

variable {Srv : Type}

/-- The transition is signalled at once when there is no chunk. -/
def start (locks : LockTable) : Release Srv where
  locks := locks
  unsent := groups locks.moves
  sending := none
  pending := none
  requests := []
  atServer _ := none
  storing := []
  responses := []
  signals := if groups locks.moves = [] then 1 else 0
  sent := []
  reported _ := 0

variable [DecidableEq Srv] (cfg : ReleaseConfig Srv)

def add (r : Release Srv) (g : ReleaseGroup) (unsent : List ReleaseGroup) : Release Srv :=
  { r with
    unsent
    sending := some g
    pending := addReleaseDegradedLock r.pending g.srcs.length }

def send (r : Release Srv) (g : ReleaseGroup) : Release Srv :=
  let (message, rest) := generateDegradedReleaseReqHeader cfg.bufferSize g.srcs
  { r with
    sending := remaining g.dst rest
    requests := r.requests ++ [(cfg.serverOf g.dst, message)]
    sent := r.sent ++ message.map fun src => ⟨src, g.dst⟩ }

/-- `ServerWorker::handleReleaseDegradedLockRequest`. -/
def receive (r : Release Srv) (srv : Srv) (chunks : List Metadata)
    (requests : List (Srv × List Metadata)) : Release Srv :=
  { r with
    requests
    atServer := Function.update r.atServer srv
      (some (insertReleaseDegradedLock (r.atServer srv) chunks.length))
    storing := r.storing ++ chunks.map fun c => (srv, c) }

/-- `ServerWorker::handleSetChunkResponse`. -/
def stored (r : Release Srv) (srv : Srv) (storing : List (Srv × Metadata)) : Release Srv :=
  match r.atServer srv with
  | none => { r with storing }
  | some p =>
    let (p, total) := eraseReleaseDegradedLock p 1
    { r with
      storing
      atServer := Function.update r.atServer srv (some p)
      responses := r.responses ++ (total.map fun n => (srv, n)).toList }

/-- `CoordinatorWorker::handleReleaseDegradedLockResponse`. -/
def respond (r : Release Srv) (srv : Srv) (count : ℕ) (responses : List (Srv × ℕ)) :
    Release Srv :=
  let (pending, signal) := removeReleaseDegradedLock r.pending count
  { r with
    responses
    pending
    signals := if signal then r.signals + 1 else r.signals
    reported := Function.update r.reported srv (r.reported srv + count) }

def step (r : Release Srv) : ReleaseEvent → Release Srv
  | .add j =>
    match r.sending, r.unsent[j]? with
    | none, some g => r.add g (r.unsent.eraseIdx j)
    | _, _ => r
  | .send =>
    match r.sending with
    | none => r
    | some g => r.send cfg g
  | .receive j =>
    match r.requests[j]? with
    | none => r
    | some (srv, chunks) => r.receive srv chunks (r.requests.eraseIdx j)
  | .stored j =>
    match r.storing[j]? with
    | none => r
    | some (srv, _) => r.stored srv (r.storing.eraseIdx j)
  | .respond j =>
    match r.responses[j]? with
    | none => r
    | some (srv, count) => r.respond srv count (r.responses.eraseIdx j)

end Release

/-! ## The coordinator -/

structure ReleaseSystem (Srv : Type) where
  degradedLocks : LockTable
  releasingDegradedLocks : LockTable
  releases : List (Release Srv)

inductive ReleaseAction where
  /-- A client locks a stripe. -/
  | insert (stripe : ListStripe) (lock : StripeLock stripe)
  /-- The lock of a stripe is expanded to hold these entries. -/
  | expand (stripe : ListStripe) (lock : StripeLock stripe)
  | release
  /-- Something happens in release `i`. -/
  | event (i : ℕ) (e : ReleaseEvent)

namespace ReleaseSystem

variable {Srv : Type}

def start : ReleaseSystem Srv := ⟨∅, ∅, []⟩

/-- `Map::findDegradedLock`. -/
def findDegradedLock (s : ReleaseSystem Srv) (stripe : ListStripe) : Option (StripeLock stripe) :=
  s.degradedLocks.lookup stripe

variable [DecidableEq Srv] (cfg : ReleaseConfig Srv)

def step (s : ReleaseSystem Srv) : ReleaseAction → ReleaseSystem Srv
  | .insert stripe lock =>
    match s.degradedLocks.lookup stripe with
    | none => { s with degradedLocks := s.degradedLocks.insert stripe lock }
    | some _ => s
  | .expand stripe lock =>
    match s.degradedLocks.lookup stripe with
    | none => s
    | some _ => { s with degradedLocks := s.degradedLocks.insert stripe lock }
  | .release =>
    { degradedLocks := s.releasingDegradedLocks
      releasingDegradedLocks := s.degradedLocks
      releases := s.releases ++ [Release.start s.degradedLocks] }
  | .event i e =>
    match s.releases[i]? with
    | none => s
    | some r => { s with releases := s.releases.set i (r.step cfg e) }

/-- The state after the actions. -/
def after (acts : List ReleaseAction) : ReleaseSystem Srv := run (step cfg) start acts

end ReleaseSystem

/-! ## Reading the locks -/

namespace DegradedLock

variable {lock : DegradedLock} {es : List LockEntry}

/-- What the body of the loop reads of entry `i`. -/
def readEntry (lock : DegradedLock) (i : ℕ) : Option LockEntry := do
  let l ← lock.original.value (2 * i)
  let c ← lock.original.value (2 * i + 1)
  let l' ← lock.reconstructed.value (2 * i)
  let c' ← lock.reconstructed.value (2 * i + 1)
  return ⟨(l, c), (l', c')⟩

def readEntries (lock : DegradedLock) : Option (List LockEntry) := do
  let n ← lock.reconstructedCount
  (List.range n).mapM lock.readEntry

theorem Holds.readEntry (h : lock.Holds es) {i : ℕ} (hi : i < es.length) :
    lock.readEntry i = some es[i] := by
  rw [DegradedLock.readEntry, h.original, h.reconstructed, value_wordsOf hi, value_wordsOf_succ hi,
    value_wordsOf hi, value_wordsOf_succ hi]
  rfl

/-- The loop reads the entries that the lock holds. -/
theorem Holds.readEntries (h : lock.Holds es) : lock.readEntries = some es := by
  rw [DegradedLock.readEntries, h.reconstructedCount]
  cases es with
  | nil => rfl
  | cons e es =>
    have hread : ∀ i ∈ List.range (e :: es).length,
        lock.readEntry i = some ((e :: es).getD i e) := by
      intro i hi
      have hi' : i < (e :: es).length := List.mem_range.mp hi
      rw [h.readEntry hi', List.getD_eq_getElem _ _ hi']
    have hmap : (List.range (e :: es).length).map (fun i => (e :: es).getD i e) = e :: es := by
      apply List.ext_getElem
      · simp
      · intro i hi hi'
        rw [List.getElem_map, List.getElem_range, List.getD_eq_getElem _ _ hi']
    exact (mapM_eq_some hread).trans (congrArg some hmap)

end DegradedLock

end MemEC.Coordinator
