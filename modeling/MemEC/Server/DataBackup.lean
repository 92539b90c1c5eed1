import MemEC.Lib.Run
import MemEC.Server.ServerBackup

/-!
# Backups of a data server

A data server keeps the delta of a request until every parity server that it
has sent the delta to has acknowledged it. The delta is kept once, and each
parity server that is waited for has a reference to it, under the id of the
request.

Updates and deletes have a map of deltas and a lock each, but they share the
map of references.
-/

namespace MemEC.Server

open MemEC.Lib MemEC.Common

/-- The `_OP_TYPE_` of the macros. -/
inductive BackupOp
  | update
  | delete
deriving DecidableEq

/-- `BackupDelta`, with the parity servers that are noted in it. -/
structure DataDelta extends BackupDelta where
  parityServers : Finset ℕ

/-- An entry of `idToTimestampMap`. Entries are compared by the request alone. -/
structure PendingAck where
  requestId : ℕ
  targetSocket : ℕ
  timestamp : ℕ
deriving DecidableEq

/-- The part of `ServerBackup` that is for data servers. -/
structure DataBackup where
  delta : BackupOp → Multimap fun d : DataDelta => d.timestamp
  idToTimestampMap : Multimap PendingAck.requestId
  locked : BackupOp → Bool

/-- The arguments of the functions `insertData`. -/
structure DataInsert where
  timestamp : ℕ
  key : List UInt8
  value : List UInt8
  metadata : Metadata
  isChunkDelta : Bool
  valueOffset : ℕ
  chunkOffset : ℕ
  requestId : ℕ
  targetId : ℕ
  targetSocket : ℕ

namespace DataInsert

/-- `backupDelta`, with the first parity server. -/
def delta (i : DataInsert) : DataDelta where
  requestId := i.requestId
  dataServerId := 0
  timestamp := i.timestamp
  key := i.key
  data := i.value
  valueOffset := i.valueOffset
  chunkOffset := i.chunkOffset
  metadata := i.metadata
  isChunkDelta := i.isChunkDelta
  parityServers := {i.targetId}

def pendingAck (i : DataInsert) : PendingAck := ⟨i.requestId, i.targetSocket, i.timestamp⟩

end DataInsert

namespace DataBackup

def empty : DataBackup := ⟨fun _ => .empty, .empty, fun _ => false⟩

variable (b : DataBackup)

/-- `LOCK`. There is no result when the call waits for ever. -/
def lock (op : BackupOp) : Option DataBackup :=
  if b.locked op then none else some { b with locked := Function.update b.locked op true }

/-- `UNLOCK`. -/
def unlock (op : BackupOp) : DataBackup :=
  { b with locked := Function.update b.locked op false }

def setDelta (op : BackupOp) (map : Multimap fun d : DataDelta => d.timestamp) : DataBackup :=
  { b with delta := Function.update b.delta op map }

/-- `addPendingAck`. The results are its return value and `isDuplicated`. -/
def addPendingAck (ack : PendingAck) : DataBackup × Bool × Bool :=
  let range := b.idToTimestampMap.equalRange ack.requestId
  if range.any fun a => a.targetSocket = ack.targetSocket then (b, false, false)
  else
    ({ b with idToTimestampMap := b.idToTimestampMap.insert ack }, true, decide (0 < range.length))

/-- What is done with the delta after `addPendingAck`. -/
def keep (op : BackupOp) (i : DataInsert) (ret duplicate : Bool) : DataBackup :=
  -- keep one copy of backup, but multiple references indexed by a request id
  if !duplicate && ret then b.setDelta op ((b.delta op).insert i.delta)
  else if ret then
    -- maintain a list of parity servers for data delta
    b.setDelta op ((b.delta op).modifyRange i.timestamp
      (fun d => if d.requestId = i.requestId then
        { d with parityServers := insert i.targetId d.parityServers } else d)
      fun d => by split_ifs <;> rfl)
  else b

/-- `insertDataUpdate` and `insertDataDelete`. -/
def insertData (op : BackupOp) (i : DataInsert) : Option (DataBackup × Bool) :=
  (b.lock op).map fun b =>
    let (b, ret, duplicate) := b.addPendingAck i.pendingAck
    ((b.keep op i ret duplicate).unlock op, ret)

/-- What is done with the delta after the reference at `timestamp` was removed, when there were
`pending` references. -/
def release (op : BackupOp) (requestId targetId timestamp pending : ℕ) :
    DataBackup × Option DataDelta :=
  -- only remove backup after all parity servers acked
  match ((b.delta op).equalRange timestamp).find? fun d => d.requestId = requestId with
  | none => (b, none) -- no `UNLOCK`
  | some d =>
    if pending = 1 then
      let map := (b.delta op).eraseFirst timestamp fun d => d.requestId = requestId
      ((b.setDelta op map).unlock op, some d)
    else
      let map := (b.delta op).modifyFirst timestamp (fun d => d.requestId = requestId)
        (fun d => { d with parityServers := d.parityServers.erase targetId }) fun _ => rfl
      ((b.setDelta op map).unlock op, none)

/-- `removeDataUpdate` and `removeDataDelete` for an acknowledgement. The result is the delta that
was removed. -/
def removeData (op : BackupOp) (requestId targetId targetSocket : ℕ) :
    Option (DataBackup × Option DataDelta) :=
  (b.lock op).map fun b =>
    let range := b.idToTimestampMap.equalRange requestId
    match range.find? fun a => a.targetSocket = targetSocket with
    | none => (b.unlock op, none)
    | some ack =>
      let map := b.idToTimestampMap.eraseFirst requestId fun a => a.targetSocket = targetSocket
      { b with idToTimestampMap := map }.release op requestId targetId ack.timestamp range.length

end DataBackup

/-- A call for the backup. -/
inductive BackupCall
  | insertData (op : BackupOp) (i : DataInsert)
  | removeData (op : BackupOp) (requestId targetId targetSocket : ℕ)

namespace DataBackup

variable (b : DataBackup)

def call : BackupCall → Option DataBackup
  | .insertData op i => (b.insertData op i).map Prod.fst
  | .removeData op requestId targetId targetSocket =>
    (b.removeData op requestId targetId targetSocket).map Prod.fst

/-- The state after the calls, if every one of them returns. -/
def after (calls : List BackupCall) : Option DataBackup := tryRun call empty calls

/-! ## What the calls are to do -/

/-- The requests and sockets that have a reference. -/
def references : List (ℕ × ℕ) :=
  b.idToTimestampMap.entries.map fun a => (a.requestId, a.targetSocket)

/-- The requests whose deltas are stored in the map of an operation. -/
def requests (op : BackupOp) : List ℕ := (b.delta op).entries.map fun d => d.requestId

/-- The requests whose deltas are stored. -/
def stored : List ℕ := b.requests .update ++ b.requests .delete

/-- The references of a request. -/
def pending (requestId : ℕ) : ℕ := (b.references.map Prod.fst).count requestId

end DataBackup

/-- The parity servers that have not acknowledged, by request and socket. -/
def BackupCall.awaited : BackupCall → Finset (ℕ × ℕ) → Finset (ℕ × ℕ)
  | .insertData _ i, pairs => insert (i.requestId, i.targetSocket) pairs
  | .removeData _ requestId _ targetSocket, pairs => pairs.erase (requestId, targetSocket)

def awaitedAfter (calls : List BackupCall) : Finset (ℕ × ℕ) :=
  run (fun pairs c => c.awaited pairs) ∅ calls

namespace DataBackup

variable {b : DataBackup} {op : BackupOp}

/-! ## The parts of a call -/

@[simp] theorem references_unlock : (b.unlock op).references = b.references := rfl

@[simp] theorem stored_unlock : (b.unlock op).stored = b.stored := rfl

@[simp] theorem references_setDelta {map : Multimap fun d : DataDelta => d.timestamp} :
    (b.setDelta op map).references = b.references := rfl

theorem lock_of_free (h : b.locked op = false) :
    b.lock op = some { b with locked := Function.update b.locked op true } := by
  simp [lock, h]

theorem locked_unlock_of_free {locked : BackupOp → Bool} (h : locked op = false) :
    Function.update (Function.update locked op true) op false = locked := by
  rw [Function.update_idem, ← h, Function.update_eq_self]

theorem length_equalRange (requestId : ℕ) :
    (b.idToTimestampMap.equalRange requestId).length = b.pending requestId := by
  rw [Multimap.equalRange, pending, references, List.map_map, List.count_eq_countP,
    List.countP_map, List.countP_eq_length_filter]
  congr 2

theorem mem_references_iff {requestId targetSocket : ℕ} :
    (requestId, targetSocket) ∈ b.references ↔
      ∃ ack ∈ b.idToTimestampMap.equalRange requestId, ack.targetSocket = targetSocket := by
  simp only [references, List.mem_map, Prod.mk.injEq, Multimap.mem_equalRange, and_assoc]

theorem requests_setDelta_self (map : Multimap fun d : DataDelta => d.timestamp) :
    (b.setDelta op map).requests op = map.entries.map fun d => d.requestId := by
  simp [requests, setDelta]

theorem requests_setDelta_of_ne {op' : BackupOp} (h : op' ≠ op)
    (map : Multimap fun d : DataDelta => d.timestamp) :
    (b.setDelta op map).requests op' = b.requests op' := by
  simp [requests, setDelta, h]

/-- One more delta in one of the two maps. -/
theorem stored_perm (op : BackupOp) {b' : DataBackup} {requestId : ℕ}
    (h : (b'.requests op).Perm (requestId :: b.requests op))
    (hother : ∀ op', op' ≠ op → b'.requests op' = b.requests op') :
    b'.stored.Perm (requestId :: b.stored) := by
  cases op with
  | update =>
    rw [stored, stored, hother .delete (by decide)]
    exact h.append_right _
  | delete =>
    rw [stored, stored, hother .update (by decide)]
    exact (h.append_left _).trans List.perm_middle

theorem stored_setDelta_of_map {map : Multimap fun d : DataDelta => d.timestamp}
    (h : (map.entries.map fun d => d.requestId) = b.requests op) :
    (b.setDelta op map).stored = b.stored := by
  have hsame : ∀ op', (b.setDelta op map).requests op' = b.requests op' := by
    intro op'
    by_cases hop : op' = op
    · rw [hop, requests_setDelta_self, h]
    · exact requests_setDelta_of_ne hop map
  rw [stored, stored, hsame, hsame]

/-! ## What a call can do -/

/-- The reference is added unless it is there, and the delta with the first reference. -/
theorem addPendingAck_cases (ack : PendingAck) :
    ((ack.requestId, ack.targetSocket) ∈ b.references ∧ b.addPendingAck ack = (b, false, false)) ∨
      (ack.requestId, ack.targetSocket) ∉ b.references ∧
        b.addPendingAck ack = ({ b with idToTimestampMap := b.idToTimestampMap.insert ack }, true,
          decide (0 < b.pending ack.requestId)) := by
  have hany : ((b.idToTimestampMap.equalRange ack.requestId).any fun a =>
      a.targetSocket = ack.targetSocket) = true ↔
        (ack.requestId, ack.targetSocket) ∈ b.references := by
    rw [mem_references_iff, List.any_eq_true]
    simp only [decide_eq_true_eq]
  rw [← hany, addPendingAck, length_equalRange]
  split_ifs with h
  · exact Or.inl ⟨h, rfl⟩
  · exact Or.inr ⟨h, rfl⟩

theorem references_insert (ack : PendingAck) :
    (({ b with idToTimestampMap := b.idToTimestampMap.insert ack } : DataBackup).references).Perm
      ((ack.requestId, ack.targetSocket) :: b.references) :=
  (Multimap.insertEntry_perm ack b.idToTimestampMap.entries).map _

theorem references_keep (i : DataInsert) (ret duplicate : Bool) :
    (b.keep op i ret duplicate).references = b.references := by
  rw [keep]
  split_ifs <;> rfl

theorem locked_keep (i : DataInsert) (ret duplicate : Bool) :
    (b.keep op i ret duplicate).locked = b.locked := by
  rw [keep]
  split_ifs <;> rfl

theorem stored_keep_first (i : DataInsert) :
    (b.keep op i true false).stored.Perm (i.requestId :: b.stored) := by
  have hkeep : b.keep op i true false = b.setDelta op ((b.delta op).insert i.delta) := rfl
  rw [hkeep]
  refine stored_perm op ?_ fun op' hop => requests_setDelta_of_ne hop _
  rw [requests_setDelta_self]
  exact (Multimap.insertEntry_perm i.delta (b.delta op).entries).map _

theorem stored_keep_other (i : DataInsert) : (b.keep op i true true).stored = b.stored := by
  rw [keep, if_neg (by decide), if_pos rfl]
  apply stored_setDelta_of_map
  rw [Multimap.modifyRange, List.map_map]
  refine List.map_congr_left fun d _ => ?_
  rw [Function.comp_apply]
  split_ifs <;> rfl

theorem insertData_cases (h : b.locked op = false) (i : DataInsert) :
    ∃ b' ret, b.insertData op i = some (b', ret) ∧ b'.locked = b.locked ∧
      (((i.requestId, i.targetSocket) ∈ b.references ∧ b'.references = b.references ∧
          b'.stored = b.stored) ∨
        (i.requestId, i.targetSocket) ∉ b.references ∧
          b'.references.Perm ((i.requestId, i.targetSocket) :: b.references) ∧
          ((b.pending i.requestId = 0 ∧ b'.stored.Perm (i.requestId :: b.stored)) ∨
            (0 < b.pending i.requestId ∧ b'.stored = b.stored))) := by
  rw [insertData, lock_of_free h, Option.map_some]
  set b₁ : DataBackup := { b with locked := Function.update b.locked op true } with hb₁
  rcases addPendingAck_cases (b := b₁) i.pendingAck with ⟨hmem, hack⟩ | ⟨hmem, hack⟩
  · rw [hack]
    exact ⟨_, _, rfl, locked_unlock_of_free h, Or.inl ⟨hmem, rfl, rfl⟩⟩
  · rw [hack]
    set b₂ : DataBackup := { b₁ with idToTimestampMap := _ } with hb₂
    refine ⟨_, _, rfl, ?_, Or.inr ⟨hmem, ?_, ?_⟩⟩
    · rw [unlock, locked_keep]
      exact locked_unlock_of_free h
    · rw [references_unlock, references_keep]
      exact references_insert i.pendingAck
    · rw [stored_unlock]
      by_cases hpending : 0 < b.pending i.requestId
      · rw [show decide (0 < b₁.pending i.pendingAck.requestId) = true from decide_eq_true hpending]
        exact Or.inr ⟨hpending, stored_keep_other i⟩
      · rw [show decide (0 < b₁.pending i.pendingAck.requestId) = false from
          decide_eq_false hpending]
        exact Or.inl ⟨Nat.eq_zero_of_not_pos hpending, stored_keep_first i⟩

/-- A delta of the request is in the map, under the timestamp. -/
def Holds (b : DataBackup) (op : BackupOp) (requestId timestamp : ℕ) : Prop :=
  ∃ d ∈ (b.delta op).entries, d.timestamp = timestamp ∧ d.requestId = requestId

/-- Without the delta, the lock is kept. -/
theorem release_cases (op : BackupOp) (requestId targetId timestamp pending : ℕ) :
    ∃ b' ret, b.release op requestId targetId timestamp pending = (b', ret) ∧
      b'.references = b.references ∧
      ((¬ b.Holds op requestId timestamp ∧ b'.locked = b.locked) ∨
        b.Holds op requestId timestamp ∧
          b'.locked = Function.update b.locked op false ∧
          ((pending = 1 ∧ b.stored.Perm (requestId :: b'.stored)) ∨
            (pending ≠ 1 ∧ b'.stored = b.stored))) := by
  rw [release]
  cases hfind : ((b.delta op).equalRange timestamp).find? fun d => d.requestId = requestId with
  | none =>
    refine ⟨b, none, rfl, rfl, Or.inl ⟨?_, rfl⟩⟩
    rintro ⟨d, hd, htime, hid⟩
    have hnot := List.find?_eq_none.mp hfind d (Multimap.mem_equalRange.mpr ⟨hd, htime⟩)
    exact hnot (decide_eq_true hid)
  | some d =>
    have hid : d.requestId = requestId := by simpa using List.find?_some hfind
    have hmem := Multimap.mem_equalRange.mp (List.mem_of_find?_eq_some hfind)
    have hholds : b.Holds op requestId timestamp := ⟨d, hmem.1, hmem.2, hid⟩
    dsimp only
    split_ifs with hpending
    · refine ⟨_, _, rfl, rfl, Or.inr ⟨hholds, rfl, Or.inl ⟨hpending, ?_⟩⟩⟩
      have hperm := (Multimap.eraseFirst_perm hfind).map fun d => d.requestId
      rw [List.map_cons, hid] at hperm
      rw [stored_unlock]
      refine stored_perm op ?_ fun op' hop => (requests_setDelta_of_ne hop _).symm
      rwa [requests_setDelta_self]
    · refine ⟨_, _, rfl, rfl, Or.inr ⟨hholds, rfl, Or.inr ⟨hpending, ?_⟩⟩⟩
      rw [stored_unlock]
      apply stored_setDelta_of_map
      exact map_modifyFirst
        (f := fun d : DataDelta => { d with parityServers := d.parityServers.erase targetId })
        (fun _ => rfl) _ _

theorem removeData_cases (h : b.locked op = false) (requestId targetId targetSocket : ℕ) :
    ∃ b' ret, b.removeData op requestId targetId targetSocket = some (b', ret) ∧
      (((requestId, targetSocket) ∉ b.references ∧ b'.locked = b.locked ∧
          b'.references = b.references ∧ b'.stored = b.stored) ∨
        b.references.Perm ((requestId, targetSocket) :: b'.references) ∧
          ∃ ack ∈ b.idToTimestampMap.entries,
            (ack.requestId = requestId ∧ ack.targetSocket = targetSocket) ∧
            ((¬ b.Holds op requestId ack.timestamp ∧ b'.locked op = true) ∨
              b.Holds op requestId ack.timestamp ∧ b'.locked = b.locked ∧
                ((b.pending requestId = 1 ∧ b.stored.Perm (requestId :: b'.stored)) ∨
                  (b.pending requestId ≠ 1 ∧ b'.stored = b.stored)))) := by
  rw [removeData, lock_of_free h, Option.map_some]
  dsimp only
  cases hfind : (b.idToTimestampMap.equalRange requestId).find?
      fun a => a.targetSocket = targetSocket with
  | none =>
    refine ⟨_, _, rfl, Or.inl ⟨?_, locked_unlock_of_free h, rfl, rfl⟩⟩
    rw [mem_references_iff]
    rintro ⟨ack, hack, hsocket⟩
    exact List.find?_eq_none.mp hfind ack hack (decide_eq_true hsocket)
  | some ack =>
    have hsocket : ack.targetSocket = targetSocket := by simpa using List.find?_some hfind
    have hack := Multimap.mem_equalRange.mp (List.mem_of_find?_eq_some hfind)
    have hperm := (Multimap.eraseFirst_perm hfind).map fun a => (a.requestId, a.targetSocket)
    rw [List.map_cons, hack.2, hsocket] at hperm
    dsimp only
    set map := b.idToTimestampMap.eraseFirst requestId fun a => a.targetSocket = targetSocket
    obtain ⟨b', ret, hrelease, hrefs, hcases⟩ := release_cases
      (b := { b with idToTimestampMap := map, locked := Function.update b.locked op true })
      op requestId targetId ack.timestamp (b.idToTimestampMap.equalRange requestId).length
    refine ⟨b', ret, congrArg some hrelease, Or.inr ⟨?_, ack, hack.1, ⟨hack.2, hsocket⟩, ?_⟩⟩
    · rw [hrefs]
      exact hperm
    · rw [length_equalRange] at hcases
      rcases hcases with ⟨hnot, hlocked⟩ | ⟨hholds, hlocked, hstored⟩
      · refine Or.inl ⟨hnot, ?_⟩
        exact (congrFun hlocked op).trans (Function.update_self op true b.locked)
      · exact Or.inr ⟨hholds, hlocked.trans (locked_unlock_of_free h), hstored⟩

/-! ## Every run -/

/-- After the calls of `past` the locks are free, and the references are those of the parity
servers that have not acknowledged, once each. The last call removed just the reference that it
acknowledged, and the deltas that are stored are those of the requests that are waited for. -/
structure Correct (past : List BackupCall) (b : DataBackup) : Prop where
  free : ∀ op, b.locked op = false
  nodup : b.references.Nodup
  references : ∀ pair, pair ∈ b.references ↔ pair ∈ awaitedAfter past
  removed : ∀ earlier op requestId targetId targetSocket b₀,
    past = earlier ++ [.removeData op requestId targetId targetSocket] → after earlier = some b₀ →
      b.references.Perm (b₀.references.erase (requestId, targetSocket))
  stored : ∀ requestId, requestId ∈ b.stored ↔
    ∃ targetSocket, (requestId, targetSocket) ∈ awaitedAfter past

/-- The delta of a request is stored once. -/
structure Consistent (past : List BackupCall) (b : DataBackup) : Prop where
  free : ∀ op, b.locked op = false
  nodup : b.references.Nodup
  references : ∀ pair, pair ∈ b.references ↔ pair ∈ awaitedAfter past
  removed : ∀ earlier op requestId targetId targetSocket b₀,
    past = earlier ++ [.removeData op requestId targetId targetSocket] → after earlier = some b₀ →
      b.references.Perm (b₀.references.erase (requestId, targetSocket))
  copies : ∀ requestId, b.stored.count requestId = min 1 (b.pending requestId)

theorem pending_pos_iff {requestId : ℕ} :
    0 < b.pending requestId ↔ ∃ targetSocket, (requestId, targetSocket) ∈ b.references := by
  rw [pending, List.count_pos_iff, List.mem_map]
  constructor
  · rintro ⟨⟨_, targetSocket⟩, hpair, rfl⟩
    exact ⟨targetSocket, hpair⟩
  · rintro ⟨targetSocket, hpair⟩
    exact ⟨_, hpair, rfl⟩

theorem Consistent.correct {past : List BackupCall} (h : Consistent past b) : Correct past b where
  free := h.free
  nodup := h.nodup
  references := h.references
  removed := h.removed
  stored requestId := by
    have hpos : requestId ∈ b.stored ↔ 0 < b.pending requestId := by
      rw [← List.count_pos_iff, h.copies]
      omega
    simp only [hpos, pending_pos_iff, h.references]

theorem consistent_empty : Consistent [] empty where
  free _ := rfl
  nodup := List.nodup_nil
  references _ := by simp [awaitedAfter, DataBackup.references, empty, Multimap.empty]
  removed earlier _ _ _ _ _ hpast := by simp at hpast
  copies _ := rfl

theorem awaitedAfter_concat (past : List BackupCall) (c : BackupCall) :
    awaitedAfter (past ++ [c]) = c.awaited (awaitedAfter past) :=
  run_concat past c

/-- An acknowledgement that has a reference finds the delta in its map. -/
def Locates (b : DataBackup) : BackupCall → Prop
  | .insertData _ _ => True
  | .removeData op requestId _ targetSocket => ∀ ack ∈ b.idToTimestampMap.entries,
      ack.requestId = requestId → ack.targetSocket = targetSocket →
        b.Holds op requestId ack.timestamp

theorem count_map_fst_perm {requestId : ℕ} {refs refs' : List (ℕ × ℕ)} {pair : ℕ × ℕ}
    (h : refs'.Perm (pair :: refs)) : (refs'.map Prod.fst).count requestId =
      (refs.map Prod.fst).count requestId + if pair.1 = requestId then 1 else 0 := by
  rw [(h.map Prod.fst).count_eq, List.map_cons, List.count_cons]
  simp only [beq_iff_eq]

theorem Consistent.insertData {past : List BackupCall} (h : Consistent past b) (op : BackupOp)
    (i : DataInsert) : ∃ b', b.call (.insertData op i) = some b' ∧
      Consistent (past ++ [.insertData op i]) b' := by
  obtain ⟨b', ret, hcall, hlocked, hcases⟩ := insertData_cases (h.free op) i
  refine ⟨b', by rw [call, hcall]; rfl, ?_⟩
  have hawaited : ∀ pair, pair ∈ awaitedAfter (past ++ [.insertData op i]) ↔
      pair = (i.requestId, i.targetSocket) ∨ pair ∈ b.references := by
    intro pair
    rw [awaitedAfter_concat, BackupCall.awaited, Finset.mem_insert, h.references]
  have hremoved : ∀ earlier op' requestId targetId targetSocket b₀,
      past ++ [BackupCall.insertData op i] =
          earlier ++ [.removeData op' requestId targetId targetSocket] →
        after earlier = some b₀ →
          b'.references.Perm (b₀.references.erase (requestId, targetSocket)) := by
    intro earlier _ _ _ _ _ hpast
    have hlast := (List.append_inj' hpast rfl).2
    simp at hlast
  rcases hcases with ⟨hmem, hrefs, hstored⟩ | ⟨hnot, hperm, hstored⟩
  · refine ⟨fun op' => by rw [hlocked, h.free], hrefs ▸ h.nodup, fun pair => ?_, hremoved, ?_⟩
    · rw [hrefs, hawaited]
      constructor
      · exact Or.inr
      · rintro (rfl | hpair)
        · exact hmem
        · exact hpair
    · intro requestId
      rw [hstored, pending, hrefs]
      exact h.copies requestId
  · refine ⟨fun op' => by rw [hlocked, h.free], ?_, fun pair => ?_, hremoved, fun requestId => ?_⟩
    · exact hperm.nodup_iff.mpr (List.nodup_cons.mpr ⟨hnot, h.nodup⟩)
    · rw [hperm.mem_iff, List.mem_cons, hawaited]
    · have hcopies := h.copies requestId
      rw [pending] at hcopies
      rw [pending, count_map_fst_perm hperm]
      dsimp only
      rcases hstored with ⟨hpending, hstored⟩ | ⟨hpending, hstored⟩
      · rw [pending] at hpending
        rw [hstored.count_eq, List.count_cons, hcopies]
        by_cases hid : i.requestId = requestId
        · subst hid
          simp [hpending]
        · simp [hid]
      · rw [pending] at hpending
        rw [hstored, hcopies]
        by_cases hid : i.requestId = requestId
        · subst hid
          rw [if_pos rfl]
          omega
        · rw [if_neg hid, Nat.add_zero]

theorem Consistent.removeData {past : List BackupCall} (hpast : after past = some b)
    (h : Consistent past b) (op : BackupOp) (requestId targetId targetSocket : ℕ)
    (hlocates : b.Locates (.removeData op requestId targetId targetSocket)) :
    ∃ b', b.call (.removeData op requestId targetId targetSocket) = some b' ∧
      Consistent (past ++ [.removeData op requestId targetId targetSocket]) b' := by
  obtain ⟨b', ret, hcall, hcases⟩ :=
    removeData_cases (h.free op) requestId targetId targetSocket
  refine ⟨b', by rw [call, hcall]; rfl, ?_⟩
  have hawaited : ∀ pair,
      pair ∈ awaitedAfter (past ++ [.removeData op requestId targetId targetSocket]) ↔
        pair ≠ (requestId, targetSocket) ∧ pair ∈ b.references := by
    intro pair
    rw [awaitedAfter_concat, BackupCall.awaited, Finset.mem_erase, h.references]
  -- what is erased of the references is the same for every way to write the past
  have hremoved : b'.references.Perm (b.references.erase (requestId, targetSocket)) →
      ∀ earlier op' requestId' targetId' targetSocket' b₀,
      past ++ [BackupCall.removeData op requestId targetId targetSocket] =
          earlier ++ [.removeData op' requestId' targetId' targetSocket'] →
        after earlier = some b₀ →
          b'.references.Perm (b₀.references.erase (requestId', targetSocket')) := by
    intro hperm earlier op' requestId' targetId' targetSocket' b₀ heq hb₀
    obtain ⟨rfl, hlast⟩ := List.append_inj' heq rfl
    obtain rfl : b = b₀ := Option.some.inj (hpast.symm.trans hb₀)
    simp only [List.cons.injEq, BackupCall.removeData.injEq, and_true] at hlast
    rw [← hlast.2.1, ← hlast.2.2.2]
    exact hperm
  rcases hcases with ⟨hnot, hlocked, hrefs, hstored⟩ | ⟨hperm, ack, hack, ⟨hid, hsocket⟩, hcases⟩
  · refine ⟨fun op' => by rw [hlocked, h.free], hrefs ▸ h.nodup, fun pair => ?_, hremoved ?_, ?_⟩
    · rw [hrefs, hawaited, iff_and_self]
      rintro hpair rfl
      exact hnot hpair
    · rw [hrefs, List.erase_of_not_mem hnot]
    · intro requestId'
      rw [hstored, pending, hrefs]
      exact h.copies requestId'
  · have hholds := hlocates ack hack hid hsocket
    rcases hcases with ⟨hnot, -⟩ | ⟨-, hlocked, hstored⟩
    · exact absurd hholds hnot
    have hnodup := List.nodup_cons.mp (hperm.nodup_iff.mp h.nodup)
    refine ⟨fun op' => by rw [hlocked, h.free], hnodup.2, fun pair => ?_, hremoved ?_,
      fun requestId' => ?_⟩
    · rw [hawaited, hperm.mem_iff, List.mem_cons]
      constructor
      · intro hpair
        exact ⟨fun heq => hnodup.1 (heq ▸ hpair), Or.inr hpair⟩
      · rintro ⟨hne, rfl | hpair⟩
        · exact absurd rfl hne
        · exact hpair
    · have herase := hperm.erase (requestId, targetSocket)
      rw [List.erase_cons_head] at herase
      exact herase.symm
    · have hcopies := h.copies requestId'
      rw [pending, count_map_fst_perm hperm] at hcopies
      rw [pending]
      rcases hstored with ⟨hpending, hstored⟩ | ⟨hpending, hstored⟩
      · rw [pending, count_map_fst_perm hperm, if_pos rfl] at hpending
        rw [hstored.count_eq, List.count_cons] at hcopies
        by_cases heq : requestId = requestId'
        · subst heq
          simp only [beq_self_eq_true, if_true] at hcopies
          omega
        · simp only [beq_iff_eq, heq, if_false, Nat.add_zero] at hcopies
          exact hcopies
      · rw [pending, count_map_fst_perm hperm, if_pos rfl] at hpending
        rw [hstored, hcopies]
        dsimp only
        by_cases heq : requestId = requestId'
        · subst heq
          rw [if_pos rfl]
          omega
        · rw [if_neg heq, Nat.add_zero]

theorem Consistent.call {past : List BackupCall} (hpast : after past = some b)
    (h : Consistent past b) (c : BackupCall) (hlocates : b.Locates c) :
    ∃ b', b.call c = some b' ∧ Consistent (past ++ [c]) b' := by
  cases c with
  | insertData op i => exact h.insertData op i
  | removeData op requestId targetId targetSocket =>
    exact h.removeData hpast op requestId targetId targetSocket hlocates

/-- A reference without its delta: the call returns with the lock. -/
theorem Consistent.locked_of_not_locates {past : List BackupCall} (h : Consistent past b)
    {c : BackupCall} {b' : DataBackup} (hnot : ¬ b.Locates c) (hcall : b.call c = some b') :
    ¬ Correct (past ++ [c]) b' := by
  cases c with
  | insertData op i => exact absurd trivial hnot
  | removeData op requestId targetId targetSocket =>
    obtain ⟨b₁, ret, hb₁, hcases⟩ := removeData_cases (h.free op) requestId targetId targetSocket
    obtain rfl : b₁ = b' := by
      rw [DataBackup.call, hb₁] at hcall
      exact Option.some.inj hcall
    simp only [Locates, not_forall] at hnot
    obtain ⟨ack, hack, hid, hsocket, hnot⟩ := hnot
    rcases hcases with ⟨hnone, -⟩ | ⟨-, ack', hack', ⟨hid', hsocket'⟩, hcases⟩
    · refine absurd (List.mem_map.mpr ⟨ack, hack, ?_⟩) hnone
      rw [hid, hsocket]
    · -- there is only one reference of the request and the socket
      obtain rfl : ack = ack' := List.inj_on_of_nodup_map h.nodup hack hack' (by
        rw [hid, hsocket, hid', hsocket'])
      rcases hcases with ⟨-, hlocked⟩ | ⟨hholds, -⟩
      · intro hcorrect
        rw [hcorrect.free op] at hlocked
        cases hlocked
      · exact absurd hholds hnot

/-- After all calls of a run the backup is what it should be, if and only if every acknowledgement
that has a reference goes to the map with the delta, at the timestamp of the reference. -/
theorem correct_iff_locates (calls : List BackupCall) :
    (∀ n ≤ calls.length, ∃ b, after (calls.take n) = some b ∧ b.Correct (calls.take n)) ↔
      ∀ n c b, calls[n]? = some c → after (calls.take n) = some b → b.Locates c :=
  tryRun_good_iff_allowed consistent_empty (fun _ _ h => h.correct)
    (fun _ _ c hpast h hlocates => h.call hpast c hlocates)
    (fun _ _ _ _ h hnot hcall => h.locked_of_not_locates hnot hcall) calls

/-- An update whose only parity server acknowledges a delete of the same request. -/
def acknowledgedAsDelete : List BackupCall :=
  [.insertData .update ⟨5, [117], [118], ⟨0, 0, 0⟩, false, 0, 0, 1, 9, 7⟩,
    .removeData .delete 1 9 7]

/-- The call takes the reference of the update away and returns with the lock, so that the next
one waits for ever. -/
theorem not_correct_acknowledgedAsDelete :
    (after acknowledgedAsDelete).map (fun b => (b.locked .delete, b.stored, b.references)) =
        some (true, [1], []) ∧
      (after (acknowledgedAsDelete ++ [.removeData .delete 2 9 7])).isNone ∧
      ¬ ∀ n ≤ acknowledgedAsDelete.length, ∃ b, after (acknowledgedAsDelete.take n) = some b ∧
        b.Correct (acknowledgedAsDelete.take n) := by
  refine ⟨by decide +kernel, by decide +kernel, fun hall => ?_⟩
  obtain ⟨b, hb, hcorrect⟩ := hall 2 (by decide)
  have hlocked : (after acknowledgedAsDelete).map (fun b => b.locked .delete) = some true := by
    decide +kernel
  have htake : acknowledgedAsDelete.take 2 = acknowledgedAsDelete := rfl
  rw [← htake, hb, Option.map_some, hcorrect.free] at hlocked
  cases hlocked

end DataBackup

end MemEC.Server
