import Mathlib.Tactic
import MemEC.Common.ChunkPool
import MemEC.Common.LargeObject
import MemEC.Coordinator.DegradedLock
import MemEC.Coordinator.RemappingLock
import MemEC.Lib.LockTrace

/-!
# Requests for degraded locks

A client that needs a key while chunks of its stripe are lost asks the coordinator for a lock. The
coordinator looks for a remapping record of the key, then for the key itself, and then for a lock
of the stripe, which it extends or inserts. Some of the tables stay locked until the answer is
sent; which lock that is, is kept in a pointer that the lookups set.

A request has no result where changing the locks of a stripe fails.
-/

namespace MemEC.Coordinator

open MemEC.Common MemEC.Lib

/-- A request. The parser writes zeros behind a key that is not large. -/
structure DegradedLockHeader where
  key : List UInt8
  splitOffset : ℕ
  isLarge : Bool
  entries : List LockEntry
  zero_of_plain : isLarge = false → splitOffset = 0

/-- What a lock pointer refers to. -/
inductive RequestLock
  | remappingRecords
  | serversState (server : ℕ)
  | keys (server : ℕ)
  | chunks (server : ℕ)
  | degradedLocks
  /-- Nothing: the pointer was not set. No request holds this one. -/
  | uninitialised
  deriving DecidableEq

inductive DegradedLockReply
  | remapped (key : Key) (record : RemappingRecord)
  /-- Also for a key that is not found. -/
  | notLocked (key : Key)
  | locked (key : Key) (isLocked isSealed : Bool) (metadata : Metadata) (dataChunkCount : ℕ)
    (lock : DegradedLock) (survivingChunkIds : List ℕ)

inductive RequestEvent
  | mutex (action : MutexAction RequestLock)
  | reply (reply : DegradedLockReply)

/-- The tables that the handler reads and writes. -/
structure LockTables where
  remappingRecords : KeyMap RemappingRecord
  keys : ℕ → KeyMap Metadata
  /-- The sealed chunks that a server has reported. -/
  chunks : ℕ → Finset Metadata
  degradedLocks : DegradedLocks
  serversState : ℕ → RemapState

/-- Where keys and chunks belong. -/
structure LockPlacement where
  cfg : GlobalConfig
  dataChunkCount : ℕ
  chunkCount : ℕ
  /-- `StripeList::get` of a key: its list and the ID of its data chunk. -/
  list : List UInt8 → ℕ × ℕ
  get : ℕ × ℕ → ℕ

/-! ## The lookups -/

namespace LockTables

variable (t : LockTables)

/-- `RemappingRecordMap::find`. The records stay locked, and the pointer is set, only when there
is a record. -/
def findRecord (key : Key) (lock : RequestLock) :
    Option RemappingRecord × RequestLock × List RequestEvent :=
  match t.remappingRecords.find key with
  | some record => (some record, .remappingRecords, [.mutex (.lock .remappingRecords)])
  | none =>
    (none, lock, [.mutex (.lock .remappingRecords), .mutex (.unlock .remappingRecords)])

/-- A function that takes and gives back a lock of its own. -/
def guarded (l : RequestLock) : List RequestEvent := [.mutex (.lock l), .mutex (.unlock l)]

def ownKey (header : DegradedLockHeader) : Key :=
  if header.isLarge then .split header.key header.splitOffset else .plain header.key

/-- The lookups of the key: as it is, and then as that of a large object. The key for the answer
goes with the result. -/
def findMetadata (socket : ℕ) (header : DegradedLockHeader) (key : Key) :
    Option Metadata × Key × List RequestEvent :=
  let largeKey := Key.split header.key header.splitOffset
  match (t.keys socket).find (ownKey header) with
  | some metadata => (some metadata, key, guarded (.keys socket))
  | none =>
    let events := guarded (.keys socket) ++ guarded (.keys socket)
    match (t.keys socket).find largeKey with
    | some metadata => (some metadata, largeKey, events)
    | none => (none, key, events)

def isLost (server : ℕ) : Bool := allowRemapping t.serversState server

/-- Whether an entry of the request stays: its server is lost, and the chunk is a parity chunk, or
sealed, or that of the key. -/
def keepsEntry (c : LockPlacement) (metadata : Metadata) (ongoingAtChunk : ℕ) (e : LockEntry) :
    Bool :=
  t.isLost (c.get e.original) &&
    (c.dataChunkCount ≤ e.original.2 ||
      decide (({ metadata with chunkId := e.original.2 } : Metadata) ∈ t.chunks (c.get e.original)) ||
      ongoingAtChunk == e.original.2)

def entryLocks (c : LockPlacement) (e : LockEntry) : List RequestEvent :=
  guarded (.serversState (c.get e.original)) ++
    if t.isLost (c.get e.original) ∧ e.original.2 < c.dataChunkCount then
      guarded (.chunks (c.get e.original))
    else []

end LockTables

/-! ## The handler -/

structure LockOutcome where
  degradedLocks : DegradedLocks
  events : List RequestEvent
  result : Bool

namespace LockOutcome

def after (events : List RequestEvent) (o : LockOutcome) : LockOutcome :=
  { o with events := events ++ o.events }

end LockOutcome

namespace LockTables

variable (t : LockTables) (c : LockPlacement) (header : DegradedLockHeader)

/-- The chunk at which the requests for the key go on. -/
def ongoingAtChunk : ℕ :=
  if header.isLarge then
    ((c.list header.key).2 +
        (LargeObjectUtil.getSplitIndex c.cfg header.key.length 0 header.splitOffset).1) %
      c.dataChunkCount
  else (c.list header.key).2

def dataServer : ℕ := c.get ((c.list header.key).1, ongoingAtChunk c header)

/-- The servers of the stripe list, in the order in which their states are asked. -/
def listServers : List ℕ :=
  (List.range c.chunkCount).map fun i => c.get ((c.list header.key).1, i)

def survivingChunkIds : List ℕ :=
  (List.range c.chunkCount).filter fun i => !t.isLost (c.get ((c.list header.key).1, i))

/-- What the handler asks of the table of the locks. -/
def lockRequest (metadata : Metadata) : LockRequest where
  stripe := ⟨metadata.listId, metadata.stripeId⟩
  entries := header.entries.filter (t.keepsEntry c metadata (ongoingAtChunk c header))
  ongoingAtChunk := ongoingAtChunk c header
  survivingChunkIds := t.survivingChunkIds c header

/-- The request for a new lock: if the chunk of the key is lost, its requests go on elsewhere. -/
def newLockRequest (r : LockRequest) : LockRequest :=
  match r.entries.find? fun e => e.original.2 = r.ongoingAtChunk with
  | some e => { r with ongoingAtChunk := e.reconstructed.2 }
  | none => r

/-- From the lookup of the lock on. -/
def lockStripe (key : Key) (metadata : Metadata) (r : LockRequest) : Option LockOutcome := do
  let isSealed : Bool := metadata ∈ t.chunks (dataServer c header)
  let check := guarded (.chunks (dataServer c header))
  match t.degradedLocks.lookup r.stripe with
  | some lock =>
    let (degradedLocks, expanded) ← t.degradedLocks.expandDegradedLock r c.chunkCount
    let reply := .locked key false isSealed metadata c.dataChunkCount (expanded.getD lock)
      r.survivingChunkIds
    return ⟨degradedLocks, [.mutex (.lock .degradedLocks)] ++ check ++
      [.reply reply, .mutex (.unlock .degradedLocks)], true⟩
  | none =>
    if r.entries = [] then
      return ⟨t.degradedLocks, [.mutex (.lock .degradedLocks), .reply (.notLocked key),
        .mutex (.unlock .degradedLocks)], true⟩
    else
      let (degradedLocks, _) ← t.degradedLocks.insertDegradedLock (newLockRequest r) c.chunkCount
      match degradedLocks.lookup r.stripe with
      | some lock =>
        let reply := .locked key true isSealed metadata c.dataChunkCount lock r.survivingChunkIds
        return ⟨degradedLocks, [.mutex (.lock .degradedLocks)] ++ check ++
          [.reply reply, .mutex (.unlock .degradedLocks)], true⟩
      | none =>
        return ⟨degradedLocks, [.mutex (.lock .degradedLocks), .reply (.notLocked key),
          .mutex (.unlock .degradedLocks)], false⟩

/-- From the lookup of the key on. -/
def lockKey (key : Key) : Option LockOutcome :=
  let socket := dataServer c header
  let states := (listServers c header).flatMap fun server => guarded (.serversState server)
  match t.findMetadata socket header key with
  | (none, key, find) =>
    some ⟨t.degradedLocks, states ++ find ++ [.reply (.notLocked key)], false⟩
  | (some metadata, key, find) =>
    (t.lockStripe c header key metadata (t.lockRequest c header metadata)).map
      (.after (states ++ find ++ header.entries.flatMap (t.entryLocks c)))

/-- `handleDegradedLockRequest`. A record may also be that of the first split of a large object,
whose key is looked up behind a key that is not large; then the pointer is unlocked in any case. -/
def handleDegradedLockRequest : Option LockOutcome :=
  match t.findRecord (ownKey header) .uninitialised with
  | (some record, lock, find) =>
    some ⟨t.degradedLocks,
      find ++ [.reply (.remapped (ownKey header) record), .mutex (.unlock lock)], false⟩
  | (none, lock, find) =>
    if header.isLarge then (t.lockKey c header (ownKey header)).map (.after find)
    else
      let key := Key.split header.key 0
      match t.findRecord key lock with
      | (some record, lock, find') =>
        some ⟨t.degradedLocks,
          find ++ find' ++ [.reply (.remapped key record), .mutex (.unlock lock)], false⟩
      | (none, lock, find') =>
        (t.lockKey c header key).map (.after (find ++ find' ++ [.mutex (.unlock lock)]))

end LockTables

/-! ## What the handler does with its locks -/

def mutexes (events : List RequestEvent) : List (MutexAction RequestLock) :=
  events.filterMap fun
    | .mutex a => some a
    | .reply _ => none

def replies (events : List RequestEvent) : List DegradedLockReply :=
  events.filterMap fun
    | .mutex _ => none
    | .reply r => some r

@[simp] theorem mutexes_append (as bs : List RequestEvent) :
    mutexes (as ++ bs) = mutexes as ++ mutexes bs := List.filterMap_append

@[simp] theorem replies_append (as bs : List RequestEvent) :
    replies (as ++ bs) = replies as ++ replies bs := List.filterMap_append

/-- One answer, and exactly the locks that were taken are given back. -/
structure AnswersOnce (events : List RequestEvent) : Prop where
  reply : (replies events).length = 1
  balanced : LocksBalanced (mutexes events)

/-- No answer yet. -/
structure Quiet (events : List RequestEvent) : Prop where
  replies : replies events = []
  balanced : LocksBalanced (mutexes events)

theorem Quiet.append {as bs : List RequestEvent} (ha : Quiet as) (hb : Quiet bs) :
    Quiet (as ++ bs) where
  replies := by rw [replies_append, ha.replies, hb.replies, List.append_nil]
  balanced := by
    rw [mutexes_append]
    exact ha.balanced.append hb.balanced

theorem Quiet.answers {as bs : List RequestEvent} (ha : Quiet as) (hb : AnswersOnce bs) :
    AnswersOnce (as ++ bs) where
  reply := by rw [replies_append, ha.replies, List.nil_append, hb.reply]
  balanced := by
    rw [mutexes_append]
    exact ha.balanced.append hb.balanced

theorem quiet_nil : Quiet [] := ⟨rfl, rfl⟩

theorem quiet_flatMap {α : Type} {f : α → List RequestEvent} (h : ∀ a, Quiet (f a)) (as : List α) :
    Quiet (as.flatMap f) := by
  induction as with
  | nil => exact quiet_nil
  | cons a as ih =>
    rw [List.flatMap_cons]
    exact (h a).append ih

namespace LockTables

theorem quiet_guarded (l : RequestLock) : Quiet (guarded l) where
  replies := rfl
  balanced := heldAfter_guard (Finset.notMem_empty l) []

theorem answersOnce_reply (reply : DegradedLockReply) : AnswersOnce [.reply reply] := ⟨rfl, rfl⟩

/-- An answer that is sent while a table is locked. -/
theorem answersOnce_locked (l : RequestLock) (reply : DegradedLockReply) :
    AnswersOnce [.mutex (.lock l), .reply reply, .mutex (.unlock l)] where
  reply := rfl
  balanced := heldAfter_guard (Finset.notMem_empty l) []

theorem answersOnce_degradedLocks (server : ℕ) (reply : DegradedLockReply) :
    AnswersOnce ([.mutex (.lock .degradedLocks)] ++ guarded (.chunks server) ++
      [.reply reply, .mutex (.unlock .degradedLocks)]) where
  reply := rfl
  balanced := by
    change heldAfter ∅ [.lock RequestLock.degradedLocks, .lock (.chunks server),
      .unlock (.chunks server), .unlock .degradedLocks] = some ∅
    rw [heldAfter_lock (Finset.notMem_empty _), heldAfter_guard (by simp)]
    rfl

variable {t : LockTables} {c : LockPlacement} {header : DegradedLockHeader} {key : Key}
  {metadata : Metadata} {r : LockRequest} {o : LockOutcome}

/-- Changing the locks for a request does not fail. -/
structure ChangesLocks (t : LockTables) (c : LockPlacement) (r : LockRequest) : Prop where
  expands : (t.degradedLocks.expandDegradedLock r c.chunkCount).isSome
  inserts : t.degradedLocks.lookup r.stripe = none → r.entries ≠ [] →
    (t.degradedLocks.insertDegradedLock (newLockRequest r) c.chunkCount).isSome

theorem lockStripe_answers (h : t.lockStripe c header key metadata r = some o) :
    AnswersOnce o.events := by
  rw [lockStripe] at h
  split at h
  · obtain ⟨⟨locks, expanded⟩, -, h⟩ := Option.bind_eq_some_iff.mp h
    cases h
    exact answersOnce_degradedLocks _ _
  · split_ifs at h
    · cases h
      exact answersOnce_locked _ _
    · obtain ⟨⟨locks, inserted⟩, -, h⟩ := Option.bind_eq_some_iff.mp h
      dsimp only at h
      split at h
      · cases h
        exact answersOnce_degradedLocks _ _
      · cases h
        exact answersOnce_locked _ _

theorem lockStripe_isSome_iff :
    (t.lockStripe c header key metadata r).isSome ↔ t.ChangesLocks c r := by
  rw [lockStripe]
  constructor
  · intro h
    split at h
    next lock hlock =>
      refine ⟨?_, fun hnone => ?_⟩
      · cases hexpand : t.degradedLocks.expandDegradedLock r c.chunkCount with
        | none =>
          rw [hexpand] at h
          cases h
        | some expanded => rfl
      · rw [hlock] at hnone
        cases hnone
    next hlock =>
      refine ⟨?_, fun _ hne => ?_⟩
      · rw [DegradedLocks.expandDegradedLock, hlock]
        rfl
      · rw [if_neg hne] at h
        cases hinsert : t.degradedLocks.insertDegradedLock (newLockRequest r) c.chunkCount with
        | none =>
          rw [hinsert] at h
          cases h
        | some inserted => rfl
  · rintro ⟨hexpands, hinserts⟩
    split
    next lock hlock =>
      obtain ⟨expanded, hexpand⟩ := Option.isSome_iff_exists.mp hexpands
      rw [hexpand]
      rfl
    next hlock =>
      split_ifs with hentries
      · rfl
      · obtain ⟨inserted, hinsert⟩ := Option.isSome_iff_exists.mp (hinserts hlock hentries)
        rw [hinsert, Option.bind_eq_bind, Option.bind_some]
        dsimp only
        split <;> rfl

theorem quiet_findMetadata (socket : ℕ) : Quiet (t.findMetadata socket header key).2.2 := by
  rw [findMetadata]
  split
  · exact quiet_guarded _
  · dsimp only
    split
    · exact (quiet_guarded _).append (quiet_guarded _)
    · exact (quiet_guarded _).append (quiet_guarded _)

theorem quiet_entryLocks (e : LockEntry) : Quiet (t.entryLocks c e) := by
  refine (quiet_guarded _).append ?_
  split_ifs
  · exact quiet_guarded _
  · exact quiet_nil

/-- The requests for a lock of the stripe of the key do not fail. -/
def ChangesFound (t : LockTables) (c : LockPlacement) (header : DegradedLockHeader) : Prop :=
  ∀ metadata, (t.findMetadata (dataServer c header) header (ownKey header)).1 = some metadata →
    t.ChangesLocks c (t.lockRequest c header metadata)

theorem lockKey_answers (h : t.lockKey c header key = some o) : AnswersOnce o.events := by
  have hstates : Quiet ((listServers c header).flatMap fun server => guarded (.serversState server)) :=
    quiet_flatMap (fun _ => quiet_guarded _) _
  have hfind : Quiet (t.findMetadata (dataServer c header) header key).2.2 := quiet_findMetadata _
  rw [lockKey] at h
  split at h
  next find hfound =>
    rw [hfound] at hfind
    cases h
    exact (hstates.append hfind).answers (answersOnce_reply _)
  next metadata key' find hfound =>
    rw [hfound] at hfind
    obtain ⟨o', ho', rfl⟩ := Option.map_eq_some_iff.mp h
    exact ((hstates.append hfind).append (quiet_flatMap quiet_entryLocks _)).answers
      (lockStripe_answers ho')

theorem lockKey_isSome_iff :
    (t.lockKey c header (ownKey header)).isSome ↔ t.ChangesFound c header := by
  rw [lockKey, ChangesFound]
  split
  next find hfound => simp [hfound]
  next metadata key' find hfound =>
    rw [Option.isSome_map, lockStripe_isSome_iff, hfound]
    simp

/-! ## Requests that are answered -/

/-- The pointer is set before it is unlocked: the key is large, or it has a record. -/
def SetsPointer (t : LockTables) (header : DegradedLockHeader) : Prop :=
  header.isLarge ∨ (t.remappingRecords.find (ownKey header)).isSome ∨
    (t.remappingRecords.find (.split header.key 0)).isSome

theorem findRecord_of_some {record : RemappingRecord} (h : t.remappingRecords.find key = some record)
    (lock : RequestLock) : t.findRecord key lock =
      (some record, .remappingRecords, [.mutex (.lock .remappingRecords)]) := by
  rw [findRecord, h]

theorem findRecord_of_none (h : t.remappingRecords.find key = none) (lock : RequestLock) :
    t.findRecord key lock = (none, lock, guarded .remappingRecords) := by
  rw [findRecord, h]
  rfl

theorem answersOnce_of_record {record : RemappingRecord}
    (hown : t.remappingRecords.find (ownKey header) = some record) :
    ∃ o, t.handleDegradedLockRequest c header = some o ∧ AnswersOnce o.events := by
  rw [handleDegradedLockRequest, findRecord_of_some hown]
  exact ⟨_, rfl, answersOnce_locked .remappingRecords _⟩

theorem answersOnce_of_large (hlarge : header.isLarge = true)
    (hown : t.remappingRecords.find (ownKey header) = none) :
    (∃ o, t.handleDegradedLockRequest c header = some o ∧ AnswersOnce o.events) ↔
      t.ChangesFound c header := by
  have hhandle : t.handleDegradedLockRequest c header =
      (t.lockKey c header (ownKey header)).map (.after (guarded .remappingRecords)) := by
    rw [handleDegradedLockRequest, findRecord_of_none hown]
    exact if_pos hlarge
  rw [hhandle, ← lockKey_isSome_iff]
  constructor
  · rintro ⟨o, ho, -⟩
    rw [← Option.isSome_map, ho]
    rfl
  · intro hsome
    obtain ⟨o, ho⟩ := Option.isSome_iff_exists.mp hsome
    exact ⟨_, by rw [ho, Option.map_some], (quiet_guarded _).answers (lockKey_answers ho)⟩

theorem answersOnce_of_splitRecord {record : RemappingRecord} (hlarge : header.isLarge = false)
    (hown : t.remappingRecords.find (ownKey header) = none)
    (hsplit : t.remappingRecords.find (.split header.key 0) = some record) :
    ∃ o, t.handleDegradedLockRequest c header = some o ∧ AnswersOnce o.events := by
  rw [handleDegradedLockRequest, findRecord_of_none hown]
  dsimp only
  rw [if_neg (by rw [hlarge]; exact Bool.false_ne_true), findRecord_of_some hsplit]
  exact ⟨_, rfl, (quiet_guarded .remappingRecords).answers (answersOnce_locked .remappingRecords _)⟩

/-- The pointer that is unlocked was set by neither lookup. -/
theorem not_answersOnce_of_noRecord (hlarge : header.isLarge = false)
    (hown : t.remappingRecords.find (ownKey header) = none)
    (hsplit : t.remappingRecords.find (.split header.key 0) = none) :
    ¬∃ o, t.handleDegradedLockRequest c header = some o ∧ AnswersOnce o.events := by
  rw [handleDegradedLockRequest, findRecord_of_none hown]
  dsimp only
  rw [if_neg (by rw [hlarge]; exact Bool.false_ne_true), findRecord_of_none hsplit]
  rintro ⟨o, ho, hanswers⟩
  obtain ⟨o', -, rfl⟩ := Option.map_eq_some_iff.mp ho
  have hbalanced := hanswers.balanced
  change heldAfter ∅ (mutexes (guarded .remappingRecords ++ guarded .remappingRecords ++
    [.mutex (.unlock .uninitialised)] ++ o'.events)) = some ∅ at hbalanced
  rw [mutexes_append, mutexes_append] at hbalanced
  change heldAfter ∅ (guards [RequestLock.remappingRecords, .remappingRecords] ++
    (.unlock .uninitialised :: mutexes o'.events)) = some ∅ at hbalanced
  rw [heldAfter_guards _ fun l _ => Finset.notMem_empty l,
    heldAfter_unlock_of_notMem (Finset.notMem_empty _)] at hbalanced
  cases hbalanced

/-- A request is answered once, and all locks are handled properly, exactly when the pointer is set
before it is unlocked and changing the locks of a stripe does not fail. -/
theorem answersOnce_iff (t : LockTables) (c : LockPlacement) (header : DegradedLockHeader) :
    (∃ o, t.handleDegradedLockRequest c header = some o ∧ AnswersOnce o.events) ↔
      SetsPointer t header ∧
        (header.isLarge → t.remappingRecords.find (ownKey header) = none →
          t.ChangesFound c header) := by
  rw [SetsPointer]
  cases hown : t.remappingRecords.find (ownKey header) with
  | some record =>
    exact iff_of_true (answersOnce_of_record hown) (by simp)
  | none =>
    cases hlarge : header.isLarge with
    | true =>
      rw [answersOnce_of_large hlarge hown]
      simp
    | false =>
      cases hsplit : t.remappingRecords.find (.split header.key 0) with
      | some record =>
        exact iff_of_true (answersOnce_of_splitRecord hlarge hown hsplit) (by simp)
      | none => exact iff_of_false (not_answersOnce_of_noRecord hlarge hown hsplit) (by simp)

/-- No records and no keys. -/
def emptyTables : LockTables := ⟨∅, fun _ => ∅, fun _ => ∅, ∅, fun _ => .normal⟩

def oneServer : LockPlacement := ⟨.smallest, 1, 1, fun _ => (0, 0), fun _ => 0⟩

def unknownKey : DegradedLockHeader := ⟨[133], 0, false, [], fun _ => rfl⟩

/-- The pointer is unlocked for a key without a record. -/
theorem not_answersOnce_of_unknownKey :
    ¬∀ t c header, ∃ o, handleDegradedLockRequest t c header = some o ∧ AnswersOnce o.events := by
  intro h
  obtain ⟨o, ho, hanswers⟩ := h emptyTables oneServer unknownKey
  obtain rfl := Option.some.inj ho
  exact absurd hanswers.balanced (by decide)

end LockTables

end MemEC.Coordinator
