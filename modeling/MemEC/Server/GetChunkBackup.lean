import MemEC.Server.GetChunkRun
import MemEC.Server.ParityCoder
import MemEC.Server.ParityRun

/-!
# Backups of parity chunks

An update of a parity chunk leaves the chunk as it was, with its seal indicator,
in `ServerWorker::getChunkBuffer`, where GET_CHUNK requests find it. The backup
is to stay the encoding of the data chunks that its seal indicator marks, also
when an object of one of these data chunks comes late. `ParityChunkBuffer::update`
then XORs the backup with itself.
-/

namespace MemEC.Server

open MemEC.Lib MemEC.Common KeyValue

variable {cfg : GlobalConfig}

/-- `GetChunkBuffer::ack`. -/
def GetChunkBuffer.ack (g : GetChunkBuffer) (metadata : Metadata) : GetChunkBuffer :=
  g.insert metadata ⟨true, none, []⟩

theorem GetChunkBuffer.lookup_insertBackup_of_ne {g : GetChunkBuffer} {metadata other : Metadata}
    (h : other ≠ metadata) (chunk : Option Memory) (sealIndicator : List Bool) :
    (g.insertBackup metadata chunk sealIndicator).lookup other = g.lookup other := by
  unfold insertBackup
  cases chunk with
  | none => rfl
  | some chunk =>
    dsimp only
    cases g.lookup metadata with
    | none => exact AList.lookup_insert_ne h
    | some wrapper =>
      dsimp only
      split_ifs
      · rfl
      · exact AList.lookup_insert_ne h

namespace ParityChunkBuffer

variable (b : ParityChunkBuffer cfg)

/-- What `GetChunkBuffer::find` returns for the parity chunk of a stripe, if there is a chunk. -/
def backup (stripeId : ℕ) : Option (Memory × List Bool) :=
  match b.getChunkBuffer.lookup ⟨b.listId, stripeId, b.chunkId⟩ with
  | some { acked := _, chunk := some backupChunk, sealIndicator } =>
    some (backupChunk, sealIndicator)
  | _ => none

/-- `getSealIndicator`. -/
def getSealIndicator (stripeId : ℕ) : List Bool := (b.getWrapper stripeId).pending.map (!·)

/-- `ServerWorker::handleGetChunkRequest` for the parity chunk of a stripe, with the chunk and the
seal indicator that it sends. -/
def handleGetChunkRequest (stripeId : ℕ) :
    ParityChunkBuffer cfg × Option Memory × List Bool :=
  let chunk := (b.chunks.lookup stripeId).map ParityChunkWrapper.chunk
  let sent := match b.backup stripeId with
    | some (backupChunk, sealIndicator) => (some backupChunk, sealIndicator)
    | none => (chunk, b.getSealIndicator stripeId)
  ({ b with
    chunks := b.chunks.insert stripeId (b.getWrapper stripeId)
    getChunkBuffer := b.getChunkBuffer.ack ⟨b.listId, stripeId, b.chunkId⟩ }, sent)

variable {b} {b' : ParityChunkBuffer cfg}

theorem SameStripes.backup (h : SameStripes b b') (stripeId : ℕ) :
    b'.backup stripeId = b.backup stripeId := by
  unfold ParityChunkBuffer.backup
  rw [h.getChunkBuffer, h.listId, h.chunkId]

/-! ## The buffer of backups -/

/-- An update with a delta of its own takes a backup or keeps the one there is. -/
theorem backup_prepared (header : ChunkKeyValueUpdateHeader) (stripeId : ℕ) :
    (b.prepared (.update header)).backup stripeId = b.backup stripeId ∨
    b.backup stripeId = none ∧ stripeId = header.stripeId ∧
      (b.prepared (.update header)).backup stripeId =
        some ((b.getWrapper stripeId).chunk, b.getSealIndicator stripeId) := by
  by_cases hs : stripeId = header.stripeId
  · subst hs
    cases hchunk : b.chunks.lookup header.stripeId with
    | none =>
      left
      simp only [backup, prepared, hchunk, Option.map_none, GetChunkBuffer.insertBackup]
    | some wrapper =>
      have hwrapper : b.getWrapper header.stripeId = wrapper := by
        rw [getWrapper, hchunk, Option.getD_some]
      simp only [backup, prepared, hchunk, Option.map_some, GetChunkBuffer.insertBackup, hwrapper,
        getSealIndicator]
      cases hlookup : b.getChunkBuffer.lookup ⟨b.listId, header.stripeId, b.chunkId⟩ with
      | none =>
        right
        simp
      | some old =>
        obtain ⟨acked, chunk, sealIndicator⟩ := old
        cases chunk with
        | some backupChunk =>
          left
          simp [hlookup]
        | none =>
          cases acked with
          | true =>
            left
            simp [hlookup]
          | false =>
            right
            simp
  · left
    have hne : (⟨b.listId, stripeId, b.chunkId⟩ : Metadata) ≠
        ⟨b.listId, header.stripeId, b.chunkId⟩ := by
      intro heq
      exact hs (congrArg Metadata.stripeId heq)
    simp only [backup, prepared, GetChunkBuffer.lookup_insertBackup_of_ne hne]

/-- A late object of a data chunk that the backup does not mark leaves the backup as it is. -/
theorem backup_applyDelta_unmarked {stripeId chunkId : ℕ} (h : ∀ chunk sealIndicator,
      b.backup stripeId = some (chunk, sealIndicator) → sealIndicator.getD chunkId false = false)
    (parityChunk : Memory) (isSeal : Bool) (s : ℕ) :
    (b.applyDelta stripeId chunkId parityChunk isSeal true).backup s = b.backup s := by
  have hsame : b.getChunkBuffer.updateBackup cfg.chunkSize ⟨b.listId, stripeId, b.chunkId⟩ chunkId =
      b.getChunkBuffer := by
    unfold backup at h
    unfold GetChunkBuffer.updateBackup
    cases hlookup : b.getChunkBuffer.lookup ⟨b.listId, stripeId, b.chunkId⟩ with
    | none => rfl
    | some wrapper =>
      obtain ⟨acked, chunk, sealIndicator⟩ := wrapper
      cases chunk with
      | none => rfl
      | some backupChunk =>
        rw [hlookup] at h
        have hfalse := h backupChunk sealIndicator rfl
        dsimp only
        rw [hfalse, if_neg Bool.false_ne_true]
  unfold backup applyDelta
  dsimp only
  rw [if_pos rfl, hsame]

/-- Acknowledging a backup removes it and no other. -/
theorem backup_handleGetChunkRequest (stripeId s : ℕ) :
    (b.handleGetChunkRequest stripeId).1.backup s =
      if s = stripeId then none else b.backup s := by
  unfold backup handleGetChunkRequest GetChunkBuffer.ack
  dsimp only
  by_cases hs : s = stripeId
  · subst hs
    rw [AList.lookup_insert, if_pos rfl]
  · have hne : (⟨b.listId, s, b.chunkId⟩ : Metadata) ≠ ⟨b.listId, stripeId, b.chunkId⟩ :=
      fun heq => hs (congrArg Metadata.stripeId heq)
    rw [AList.lookup_insert_ne hne, if_neg hs]

/-- The parity chunks stay as they are. -/
theorem getWrapper_handleGetChunkRequest (stripeId s : ℕ) :
    (b.handleGetChunkRequest stripeId).1.getWrapper s = b.getWrapper s := by
  by_cases hs : s = stripeId
  · subst hs
    simp [handleGetChunkRequest, getWrapper]
  · simp [handleGetChunkRequest, getWrapper, AList.lookup_insert_ne hs]

/-! ## The pending seals -/

theorem pending_applyDelta (stripeId chunkId : ℕ) (parityChunk : Memory) (isSeal backup : Bool)
    (s : ℕ) : ((b.applyDelta stripeId chunkId parityChunk isSeal backup).getWrapper s).pending =
      if s = stripeId ∧ isSeal = true then (b.getWrapper s).pending.set chunkId false
      else (b.getWrapper s).pending := by
  by_cases hs : s = stripeId
  · subst hs
    cases isSeal <;> simp [getWrapper, applyDelta]
  · simp [getWrapper, applyDelta, AList.lookup_insert_ne hs, hs]

theorem pending_handle {m : Message} (h : b.handle m = some b') (s : ℕ) :
    (b'.getWrapper s).pending = match m with
      | .sealChunk request =>
        if s = request.stripeId then (b.getWrapper s).pending.set request.chunkId false
        else (b.getWrapper s).pending
      | _ => (b.getWrapper s).pending := by
  rw [handle_eq_handleBy] at h
  rcases handleBy_cases h with ⟨hdelta, hsame⟩ | ⟨d, startOff, endOff, hdelta, hsame⟩
  · rw [hsame.getWrapper]
    cases m with
    | sealChunk request => cases hdelta
    | set body chunkId => rfl
    | update header => rfl
    | delete key => rfl
  · rw [hsame.getWrapper, pending_applyDelta, getWrapper_prepared]
    cases m with
    | sealChunk request =>
      cases hdelta
      simp [Message.seals]
    | set body chunkId => simp [Message.seals]
    | update header => simp [Message.seals]
    | delete key => simp [Message.seals]

/-- The change that the SET of an object brings. -/
theorem deltaOf_set (o : Object cfg) (chunkId : ℕ) : b.deltaOf (.set o.bytes chunkId) =
    if (b.keys.find o.mapKey).isSome then none
    else match b.pending.find o.mapKey with
    | some (.prtSeal stripeId offset) => some ⟨stripeId, chunkId, .place offset o.bytes⟩
    | _ => none := by
  obtain ⟨hkey, hser⟩ := request_parts o
  have hl : LargeObjectUtil.isLarge cfg o.key.length o.valueSize = o.isLarge := rfl
  by_cases hfind : (b.keys.find o.mapKey).isSome = true
  · simp [deltaOf, parseKeyValueHeader_eq, hl, hkey, findValueByKey, hfind]
  · cases hpending : b.pending.find o.mapKey with
    | none => simp [deltaOf, parseKeyValueHeader_eq, hl, hkey, findValueByKey, hpending]
    | some request =>
      cases request <;>
        simp [deltaOf, parseKeyValueHeader_eq, hl, hkey, hser, findValueByKey, hfind, hpending]

end ParityChunkBuffer

/-! ## Runs -/

/-- The SEAL_CHUNK request that lists the object has come. -/
def Phase.listed : Phase → Bool
  | .awaited | .folded => true
  | _ => false

/-- A message with its objects, or a GET_CHUNK request for the parity chunk of a stripe. -/
inductive BackupEvent (cfg : GlobalConfig)
  | event (e : Event cfg)
  | getChunk (stripeId : ℕ)

theorem Item.inject_of_ne (x : Item cfg) {stripeId i : ℕ}
    (h : ¬(x.stripeId = stripeId ∧ x.chunkId = i)) (m : Memory) : x.inject m stripeId i = 0 := by
  rw [Item.inject_apply]
  by_cases hs : x.stripeId = stripeId
  · subst hs
    rw [Pi.single_eq_same]
    exact Pi.single_eq_of_ne (fun hi => h ⟨rfl, hi.symm⟩) _
  · rw [Pi.single_eq_of_ne (Ne.symm hs)]
    rfl

/-- What a SET adds to the stripes when the object has been listed before. -/
def Event.late (l : Ledger cfg) : Event cfg → ℕ → ℕ → Memory
  | set x => if (l x).phase = .awaited then x.inject x.placed else 0
  | _ => 0

/-- The buffer, the ledger, and the data of the stripes that the backups are to encode. -/
structure BackedUp (cfg : GlobalConfig) where
  buffer : ParityChunkBuffer cfg
  ledger : Ledger cfg
  taken : ℕ → ℕ → Memory

theorem Event.listed_apply (l : Ledger cfg) (e : Event cfg) (x : Item cfg) :
    (e.apply l x).phase.listed = ((l x).phase.listed || decide (x ∈ e.listings)) := by
  have hof : ∀ phase : Phase, ∃ arrived, phase = .of arrived phase.listed := by
    intro phase
    cases phase
    · exact ⟨false, rfl⟩
    · exact ⟨true, rfl⟩
    · exact ⟨false, rfl⟩
    · exact ⟨true, rfl⟩
  have hlisted : ∀ arrived listed, (Phase.of arrived listed).listed = listed := by
    decide
  obtain ⟨arrived, h⟩ := hof (l x).phase
  rw [Event.phase_apply l e x h, hlisted]

namespace BackedUp

open ParityChunkBuffer

/-- A backup is to encode the stripe as it is before the update that takes it, and what comes late
of the data chunks. -/
def step (items : List (Item cfg)) (s : BackedUp cfg) : BackupEvent cfg → Option (BackedUp cfg)
  | .event e => (s.buffer.handle e.message).map fun buffer =>
      { buffer
        ledger := e.apply s.ledger
        taken := fun stripeId =>
          if (s.buffer.backup stripeId).isNone ∧ (buffer.backup stripeId).isSome then
            s.ledger.data items stripeId
          else s.taken stripeId + e.late s.ledger stripeId }
  | .getChunk stripeId => some { s with buffer := (s.buffer.handleGetChunkRequest stripeId).1 }

/-- Events come one after the other. -/
def run (items : List (Item cfg)) (s : BackedUp cfg) (es : List (BackupEvent cfg)) :
    Option (BackedUp cfg) :=
  es.foldlM (step items) s

/-- Nothing has come yet. -/
def init (c : Coding cfg) (listId parity : ℕ) : BackedUp cfg :=
  ⟨.fresh c listId parity, .init, 0⟩

/-- The event may come in this state. -/
def Allowed (s : BackedUp cfg) : BackupEvent cfg → Prop
  | .event e => e.Allowed s.ledger
  | .getChunk _ => True

/-- The event is not the SET of an object of a data chunk that the backup marks as sealed. -/
def OnTime (s : BackedUp cfg) : BackupEvent cfg → Prop
  | .event (.set x) => (s.ledger x).phase = .awaited → ∀ chunk sealIndicator,
      s.buffer.backup x.stripeId = some (chunk, sealIndicator) →
        sealIndicator.getD x.chunkId false = false
  | _ => True

/-- The parity of the data chunks that a seal indicator marks. -/
def encoded (s : BackedUp cfg) (data : ℕ → Memory) (sealIndicator : List Bool) : Memory :=
  s.buffer.coding.parity s.buffer.parityIndex
    (sealedData data fun i => sealIndicator.getD i false)

/-- Each backup encodes the data chunks that its seal indicator marks. -/
def BackupsHold (s : BackedUp cfg) : Prop :=
  ∀ stripeId chunk sealIndicator, s.buffer.backup stripeId = some (chunk, sealIndicator) →
    SameChunk cfg chunk (s.encoded (s.taken stripeId) sealIndicator)

/-- The server knows its parity chunks, and which data chunks have been sealed. -/
structure Live (c : Coding cfg) (chunkId : ℕ) (items : List (Item cfg)) (s : BackedUp cfg) :
    Prop where
  tracks : Tracks c chunkId items s.ledger (s.ledger.data items + 0) s.buffer
  length : ∀ stripeId, (s.buffer.getWrapper stripeId).pending.length = c.dataChunkCount
  marks : ∀ x ∈ items, (s.ledger x).phase.listed = true →
    (s.buffer.getWrapper x.stripeId).pending.getD x.chunkId true = false

/-! ## The live parity chunks -/

namespace Live

variable {c : Coding cfg} {chunkId : ℕ} {items : List (Item cfg)} {s s' : BackedUp cfg}

theorem init (c : Coding cfg) (listId parity : ℕ) (items : List (Item cfg)) :
    Live c (c.dataChunkCount + parity) items (init c listId parity) := by
  constructor
  · exact Tracks.init c listId parity items
  · intro stripeId
    exact List.length_replicate
  · intro x _ hlisted
    cases hlisted

/-- Data chunks that have not been sealed have nothing in the parity. -/
theorem data_eq_zero (h : Live c chunkId items s) {stripeId i : ℕ}
    (hpending : (s.buffer.getWrapper stripeId).pending.getD i true = true) :
    s.ledger.data items stripeId i = 0 := by
  rw [Ledger.data, Pi.list_sum_apply, Pi.list_sum_apply]
  apply List.sum_eq_zero
  intro m hm
  simp only [List.map_map, List.mem_map, Function.comp_apply] at hm
  obtain ⟨x, hx, rfl⟩ := hm
  by_cases hplace : x.stripeId = stripeId ∧ x.chunkId = i
  · obtain ⟨rfl, rfl⟩ := hplace
    have hunlisted : (s.ledger x).phase.listed ≠ true := by
      intro hlisted
      rw [h.marks x hx hlisted] at hpending
      cases hpending
    have hcontent : (s.ledger x).content x = 0 := by
      unfold ItemState.content
      cases hphase : (s.ledger x).phase <;> simp_all [Phase.listed]
    rw [hcontent, map_zero]
    rfl
  · exact x.inject_of_ne hplace _

/-- A parity chunk encodes the data chunks that have been sealed. -/
theorem chunk (h : Live c chunkId items s) (stripeId : ℕ) :
    SameChunk cfg (s.buffer.getWrapper stripeId).chunk
      (s.encoded (s.ledger.data items stripeId) (s.buffer.getSealIndicator stripeId)) := by
  have hsealed : (sealedData (s.ledger.data items stripeId) fun i =>
      (s.buffer.getSealIndicator stripeId).getD i false) = s.ledger.data items stripeId := by
    funext i
    have hnot : (s.buffer.getSealIndicator stripeId).getD i false =
        !(s.buffer.getWrapper stripeId).pending.getD i true := by
      rw [getSealIndicator, List.getD_eq_getElem?_getD, List.getD_eq_getElem?_getD,
        List.getElem?_map]
      cases (s.buffer.getWrapper stripeId).pending[i]? <;> rfl
    simp only [sealedData, hnot]
    cases hpending : (s.buffer.getWrapper stripeId).pending.getD i true with
    | true => exact (h.data_eq_zero hpending).symm
    | false => rfl
  intro i hi
  rw [encoded, hsealed, h.tracks.encodes stripeId i hi, add_zero]

/-- A message. -/
theorem event (h : Live c chunkId items s) (hc : Catalogued c items) {e : Event cfg}
    (hwf : e.WellFormed c items) (hallowed : e.Allowed s.ledger) :
    ∃ s', s.step items (.event e) = some s' ∧ Live c chunkId items s' := by
  obtain ⟨b', hb', htracks⟩ := h.tracks.step hc hwf hallowed
  refine ⟨_, by rw [step, hb']; rfl, htracks, ?_, ?_⟩
  · intro stripeId
    have hpending := pending_handle hb' stripeId
    cases e with
    | set x =>
      rw [hpending]
      exact h.length stripeId
    | update x offset valueUpdate =>
      rw [hpending]
      exact h.length stripeId
    | sealChunk request xs =>
      simp only [Event.message] at hpending
      rw [hpending]
      split_ifs
      · rw [List.length_set]
        exact h.length stripeId
      · exact h.length stripeId
  · intro x hx hlisted
    have hpending := pending_handle hb' x.stripeId
    rw [Event.listed_apply, Bool.or_eq_true, decide_eq_true_eq] at hlisted
    dsimp only
    rw [hpending]
    cases e with
    | set y => exact h.marks x hx (hlisted.resolve_right List.not_mem_nil)
    | update y offset valueUpdate => exact h.marks x hx (hlisted.resolve_right List.not_mem_nil)
    | sealChunk request xs =>
      obtain ⟨-, -, hlt, hxs, -⟩ := hwf
      have hlength := h.length x.stripeId
      simp only [Event.message]
      by_cases hstripe : x.stripeId = request.stripeId
      · rw [if_pos hstripe, List.getD_eq_getElem?_getD, List.getElem?_set]
        by_cases hchunk : request.chunkId = x.chunkId
        · rw [if_pos hchunk, if_pos (by omega)]
          rfl
        · rw [if_neg hchunk, ← List.getD_eq_getElem?_getD]
          refine h.marks x hx (hlisted.resolve_right fun hmem => hchunk ?_)
          exact (hxs x hmem).2.2.symm
      · rw [if_neg hstripe]
        refine h.marks x hx (hlisted.resolve_right fun hmem => hstripe ?_)
        exact (hxs x hmem).2.1

/-- A GET_CHUNK request. -/
theorem getChunk (h : Live c chunkId items s) (stripeId : ℕ) :
    Live c chunkId items { s with buffer := (s.buffer.handleGetChunkRequest stripeId).1 } := by
  constructor
  · refine ⟨h.tracks.coding, h.tracks.chunkId, h.tracks.agrees, ?_⟩
    intro stripe i hi
    rw [getWrapper_handleGetChunkRequest]
    exact h.tracks.encodes stripe i hi
  · intro stripe
    rw [getWrapper_handleGetChunkRequest]
    exact h.length stripe
  · intro x hx hlisted
    rw [getWrapper_handleGetChunkRequest]
    exact h.marks x hx hlisted

theorem encoded_eq (h : Live c chunkId items s) (h' : Live c chunkId items s')
    (data : ℕ → Memory) (sealIndicator : List Bool) :
    s'.encoded data sealIndicator = s.encoded data sealIndicator := by
  unfold encoded parityIndex
  rw [h.tracks.coding, h.tracks.chunkId, h'.tracks.coding, h'.tracks.chunkId]

/-- What a message that comes in time does to a backup: it stays, or it is taken of the stripe as
it is before the message. -/
theorem backup_event (h : Live c chunkId items s) {e : Event cfg} (hwf : e.WellFormed c items)
    (hallowed : e.Allowed s.ledger) (hontime : s.OnTime (.event e))
    {b' : ParityChunkBuffer cfg} (hb' : s.buffer.handle e.message = some b') (stripeId : ℕ) :
    b'.backup stripeId = s.buffer.backup stripeId ∨ s.buffer.backup stripeId = none ∧
      b'.backup stripeId = some ((s.buffer.getWrapper stripeId).chunk,
        s.buffer.getSealIndicator stripeId) := by
  rw [handle_eq_handleBy] at hb'
  rcases handleBy_cases hb' with ⟨-, hsame⟩ | ⟨d, startOff, endOff, hdelta, hsame⟩
  · exact Or.inl (hsame.backup stripeId)
  · rw [hsame.backup]
    cases e with
    | set x =>
      left
      have hagrees := h.tracks.agrees x hwf
      have hset : s.buffer.deltaOf (.set x.object.bytes x.chunkId) = some d := hdelta
      rw [deltaOf_set] at hset
      rcases hallowed with hphase | hphase
      · simp only [Agrees, hphase] at hagrees
        have hpending : s.buffer.pending.find x.object.mapKey = none := hagrees.2.1
        rw [hpending] at hset
        split_ifs at hset
      · simp only [Agrees, hphase] at hagrees
        have hpending : s.buffer.pending.find x.object.mapKey =
          some (.prtSeal x.stripeId x.offset) := hagrees.2.1
        rw [hpending] at hset
        split_ifs at hset
        cases hset
        exact backup_applyDelta_unmarked (hontime hphase) _ _ stripeId
    | sealChunk request xs => exact Or.inl rfl
    | update x offset valueUpdate =>
      have hprepared := backup_prepared (b := s.buffer) (x.updateHeader offset valueUpdate) stripeId
      exact hprepared.imp id fun hnew => ⟨hnew.1, hnew.2.2⟩

end Live

/-- What comes late of a data chunk that the backup does not mark makes no difference. -/
theorem sealedData_late {s : BackedUp cfg} {e : Event cfg}
    (hontime : s.OnTime (.event e)) {stripeId : ℕ} {chunk : Memory} {sealIndicator : List Bool}
    (hbackup : s.buffer.backup stripeId = some (chunk, sealIndicator)) (data : ℕ → Memory) :
    (sealedData (data + e.late s.ledger stripeId) fun i => sealIndicator.getD i false) =
      sealedData data fun i => sealIndicator.getD i false := by
  funext i
  cases hmark : sealIndicator.getD i false with
  | false => simp only [sealedData, hmark, Bool.false_eq_true, if_false]
  | true =>
    have hnone : e.late s.ledger stripeId i = 0 := by
      cases e with
      | set x =>
        simp only [Event.late]
        split_ifs with hphase
        · by_cases hplace : x.stripeId = stripeId ∧ x.chunkId = i
          · obtain ⟨rfl, rfl⟩ := hplace
            rw [hontime hphase chunk sealIndicator hbackup] at hmark
            cases hmark
          · exact x.inject_of_ne hplace _
        · rfl
      | sealChunk request xs => rfl
      | update x offset valueUpdate => rfl
    have hsum : (data + e.late s.ledger stripeId) i = data i := by
      rw [Pi.add_apply, hnone, add_zero]
    simp only [sealedData, hsum]

/-! ## The backups -/

namespace BackupsHold

variable {c : Coding cfg} {chunkId : ℕ} {items : List (Item cfg)} {s s' : BackedUp cfg}

theorem init (c : Coding cfg) (listId parity : ℕ) : BackupsHold (init c listId parity) := by
  intro stripeId chunk sealIndicator hbackup
  cases hbackup

/-- A message that comes in time. -/
theorem event (hb : BackupsHold s) (h : Live c chunkId items s) (h' : Live c chunkId items s')
    {e : Event cfg} (hwf : e.WellFormed c items) (hallowed : e.Allowed s.ledger)
    (hontime : s.OnTime (.event e)) (hs : s.step items (.event e) = some s') : BackupsHold s' := by
  obtain ⟨b', hb', rfl⟩ := Option.map_eq_some_iff.mp hs
  intro stripeId chunk sealIndicator hbackup
  rw [h.encoded_eq h']
  dsimp only at hbackup ⊢
  rcases h.backup_event hwf hallowed hontime hb' stripeId with hsame | ⟨hnone, hnew⟩
  · rw [hsame] at hbackup
    have hold : ¬((s.buffer.backup stripeId).isNone = true ∧
        (b'.backup stripeId).isSome = true) := by
      rw [hbackup]
      exact fun hno => Bool.false_ne_true hno.1
    rw [if_neg hold, encoded, sealedData_late hontime hbackup]
    exact hb stripeId chunk sealIndicator hbackup
  · have htaken : (s.buffer.backup stripeId).isNone = true ∧
        (b'.backup stripeId).isSome = true := by
      rw [hnone, hnew]
      exact ⟨rfl, rfl⟩
    rw [hnew] at hbackup
    cases hbackup
    rw [if_pos htaken]
    exact h.chunk stripeId

/-- A GET_CHUNK request. -/
theorem getChunk (hb : BackupsHold s) (h : Live c chunkId items s) (stripeId : ℕ) :
    BackupsHold { s with buffer := (s.buffer.handleGetChunkRequest stripeId).1 } := by
  intro stripe chunk sealIndicator hbackup
  rw [h.encoded_eq (h.getChunk stripeId)]
  dsimp only at hbackup ⊢
  rw [backup_handleGetChunkRequest] at hbackup
  split_ifs at hbackup
  exact hb stripe chunk sealIndicator hbackup

end BackupsHold

/-- What a GET_CHUNK request is answered with encodes the data chunks that the seal indicator marks:
those that the backup was taken of, or those of the live parity chunk. -/
def Answers (items : List (Item cfg)) (s : BackedUp cfg) : Prop :=
  ∀ stripeId chunk sealIndicator,
    (s.buffer.handleGetChunkRequest stripeId).2 = (some chunk, sealIndicator) →
      SameChunk cfg chunk (s.encoded (if (s.buffer.backup stripeId).isSome then s.taken stripeId
        else s.ledger.data items stripeId) sealIndicator)

theorem BackupsHold.answers {c : Coding cfg} {chunkId : ℕ} {items : List (Item cfg)}
    {s : BackedUp cfg} (hb : BackupsHold s) (h : Live c chunkId items s) : s.Answers items := by
  intro stripeId chunk sealIndicator hsent
  simp only [handleGetChunkRequest] at hsent
  cases hbackup : s.buffer.backup stripeId with
  | some kept =>
    obtain ⟨backupChunk, kept⟩ := kept
    rw [hbackup] at hsent
    cases hsent
    rw [Option.isSome_some, if_pos rfl]
    exact hb stripeId chunk sealIndicator hbackup
  | none =>
    rw [hbackup] at hsent
    obtain ⟨hchunk, rfl⟩ := Prod.mk.inj hsent
    have hwrapper : (s.buffer.getWrapper stripeId).chunk = chunk := by
      rw [getWrapper_chunk, hchunk, Option.getD_some]
    rw [Option.isSome_none, if_neg Bool.false_ne_true, ← hwrapper]
    exact h.chunk stripeId

end BackedUp

/-- The message of an event. -/
def BackupEvent.event? : BackupEvent cfg → Option (Event cfg)
  | event e => some e
  | getChunk _ => none

namespace BackedUp

variable {c : Coding cfg} {chunkId : ℕ} {items : List (Item cfg)} {s s' : BackedUp cfg}

/-- One event. -/
theorem Live.step (h : Live c chunkId items s) (hc : Catalogued c items) {e : BackupEvent cfg}
    (hwf : ∀ m, e = .event m → m.WellFormed c items) (hallowed : s.Allowed e) :
    ∃ s', s.step items e = some s' ∧ Live c chunkId items s' ∧
      s'.ledger = e.event?.toList.foldl Event.apply s.ledger ∧
      (s.OnTime e → BackupsHold s → BackupsHold s') := by
  cases e with
  | event m =>
    obtain ⟨s', hs', h'⟩ := h.event hc (hwf m rfl) hallowed
    have hledger : s'.ledger = m.apply s.ledger := by
      obtain ⟨b', -, rfl⟩ := Option.map_eq_some_iff.mp hs'
      rfl
    exact ⟨s', hs', h', hledger,
      fun hontime hb => hb.event h h' (hwf m rfl) hallowed hontime hs'⟩
  | getChunk stripeId =>
    exact ⟨_, rfl, h.getChunk stripeId, rfl, fun _ hb => hb.getChunk h stripeId⟩

theorem Live.run (h : Live c chunkId items s) (hc : Catalogued c items)
    {es : List (BackupEvent cfg)} (hwf : ∀ m, .event m ∈ es → m.WellFormed c items)
    (hallowed : ∀ as e bs s₁, es = as ++ e :: bs → s.run items as = some s₁ → s₁.Allowed e) :
    ∃ s', s.run items es = some s' ∧ Live c chunkId items s' ∧
      s'.ledger = (es.filterMap BackupEvent.event?).foldl Event.apply s.ledger ∧
      ((∀ as e bs s₁, es = as ++ e :: bs → s.run items as = some s₁ → s₁.OnTime e) →
        BackupsHold s → BackupsHold s') := by
  induction es generalizing s with
  | nil => exact ⟨s, rfl, h, rfl, fun _ hb => hb⟩
  | cons e es ih =>
    obtain ⟨s₁, hs₁, h₁, hledger₁, hhold₁⟩ := h.step hc
      (fun m hm => hwf m (hm ▸ List.mem_cons_self)) (hallowed [] e es s rfl rfl)
    have hrun : ∀ as, s.run items (e :: as) = s₁.run items as := by
      intro as
      unfold BackedUp.run
      rw [List.foldlM_cons, hs₁]
      rfl
    obtain ⟨s', hs', h', hledger', hhold'⟩ := ih h₁
      (fun m hm => hwf m (List.mem_cons_of_mem e hm))
      fun as e' bs s₂ hsplit has => hallowed (e :: as) e' bs s₂ (by rw [hsplit]; rfl)
        ((hrun as).trans has)
    refine ⟨s', (hrun es).trans hs', h', ?_, ?_⟩
    · rw [hledger', hledger₁]
      cases e <;> rfl
    · intro hontime hb
      refine hhold' ?_ (hhold₁ (hontime [] e es s rfl rfl) hb)
      intro as e' bs s₂ hsplit has
      exact hontime (e :: as) e' bs s₂ (by rw [hsplit]; rfl) ((hrun as).trans has)

/-- In every run the parity chunks are those of the messages, whatever backups have been taken and
acknowledged; and when no object of a data chunk that a backup marks comes late, the backups encode
the data chunks that they mark. -/
theorem answers_run (c : Coding cfg) (listId parity : ℕ) (hc : Catalogued c items)
    {es : List (BackupEvent cfg)} (hwf : ∀ m, .event m ∈ es → m.WellFormed c items)
    (hallowed : ∀ as e bs s, es = as ++ e :: bs →
      (init c listId parity).run items as = some s → s.Allowed e) :
    ∃ s, (init c listId parity).run items es = some s ∧
      s.buffer.Encodes (((es.filterMap BackupEvent.event?).foldl Event.apply .init).data items) ∧
      ((∀ as e bs s, es = as ++ e :: bs →
        (init c listId parity).run items as = some s → s.OnTime e) → s.Answers items) := by
  obtain ⟨s, hs, h, hledger, hhold⟩ := (Live.init c listId parity items).run hc hwf hallowed
  refine ⟨s, hs, ?_, fun hontime => (hhold hontime (BackupsHold.init c listId parity)).answers h⟩
  have hencodes := h.tracks.encodes
  rw [add_zero, hledger] at hencodes
  exact hencodes

/-! ## An object that comes late -/

def lateObject : Item .smallest := ⟨0, 0, 0, .plain [97] [98] (by decide) (by decide)⟩

theorem lateObject_catalogued : Catalogued (.raid5 1) [lateObject] where
  idents := List.nodup_singleton _
  fits := by
    intro x hx
    rw [List.mem_singleton.mp hx]
    decide
  chunkId_lt := by
    intro x hx
    rw [List.mem_singleton.mp hx]
    decide

/-- The SEAL_CHUNK request that lists the object. -/
def lateSeal : Event .smallest := .sealChunk ⟨0, 0, 0, 1, [1, 0, 0, 0, 0, 0, 97]⟩ [lateObject]

theorem lateSeal_wellFormed : lateSeal.WellFormed (.raid5 1) [lateObject] := by
  refine ⟨by decide +kernel, rfl, by decide, ?_, List.pairwise_singleton _ _⟩
  intro x hx
  rw [List.mem_singleton.mp hx]
  exact ⟨List.mem_singleton_self _, rfl, rfl⟩

/-- The object is stored, listed and updated, in this order. -/
def timelyRun : List (BackupEvent .smallest) :=
  [.event (.set lateObject), .event lateSeal, .event (.update lateObject 0 [1])]

/-- The object is listed and updated before it comes. -/
def lateRun : List (BackupEvent .smallest) :=
  [.event lateSeal, .event (.update lateObject 0 [1]), .event (.set lateObject)]

theorem phase_of_all {o : Option (BackedUp .smallest)} (phase : Phase)
    (hall : o.all (fun s => decide ((s.ledger lateObject).phase = phase)) = true)
    {s : BackedUp .smallest} (hs : o = some s) : (s.ledger lateObject).phase = phase := by
  subst hs
  exact of_decide_eq_true hall

theorem timelyRun_allowed (as : List (BackupEvent .smallest)) (e : BackupEvent .smallest)
    (bs : List (BackupEvent .smallest)) (s : BackedUp .smallest)
    (hsplit : timelyRun = as ++ e :: bs)
    (has : (init (.raid5 1) 0 0).run [lateObject] as = some s) : s.Allowed e ∧ s.OnTime e := by
  rcases as with _ | ⟨e₁, _ | ⟨e₂, _ | ⟨e₃, as⟩⟩⟩
  · cases hsplit
    have h := phase_of_all .unknown (by decide +kernel) has
    exact ⟨Or.inl h, fun hawaited => by rw [h] at hawaited; cases hawaited⟩
  · cases hsplit
    have h := phase_of_all .stored (by decide +kernel) has
    refine ⟨⟨List.nodup_singleton _, fun x hx => ?_⟩, trivial⟩
    rw [List.mem_singleton.mp hx]
    exact Or.inr h
  · cases hsplit
    have h := phase_of_all .folded (by decide +kernel) has
    refine ⟨?_, trivial⟩
    intro hunknown
    rw [h] at hunknown
    cases hunknown
  · have hlen := congrArg List.length hsplit
    simp [timelyRun] at hlen

theorem answers_timelyRun : ∃ s, (init (.raid5 1) 0 0).run [lateObject] timelyRun = some s ∧
    s.Answers [lateObject] := by
  have hwf : ∀ m, .event m ∈ timelyRun → m.WellFormed (.raid5 1) [lateObject] := by
    intro m hm
    simp only [timelyRun, List.mem_cons, BackupEvent.event.injEq, List.not_mem_nil, or_false] at hm
    rcases hm with rfl | rfl | rfl
    · exact List.mem_singleton_self _
    · exact lateSeal_wellFormed
    · exact ⟨List.mem_singleton_self _, by decide⟩
  obtain ⟨s, hs, -, hanswers⟩ := answers_run (.raid5 1) 0 0 lateObject_catalogued hwf
    fun as e bs s hsplit has => (timelyRun_allowed as e bs s hsplit has).1
  exact ⟨s, hs, hanswers fun as e bs s hsplit has => (timelyRun_allowed as e bs s hsplit has).2⟩

/-- The messages of the late run are those of the timely one. -/
theorem lateRun_wellFormed {m : Event .smallest} (hm : .event m ∈ lateRun) :
    m.WellFormed (.raid5 1) [lateObject] := by
  simp only [lateRun, List.mem_cons, BackupEvent.event.injEq, List.not_mem_nil, or_false] at hm
  rcases hm with rfl | rfl | rfl
  · exact lateSeal_wellFormed
  · exact ⟨List.mem_singleton_self _, by decide⟩
  · exact List.mem_singleton_self _

theorem lateRun_allowed (as : List (BackupEvent .smallest)) (e : BackupEvent .smallest)
    (bs : List (BackupEvent .smallest)) (s : BackedUp .smallest) (hsplit : lateRun = as ++ e :: bs)
    (has : (init (.raid5 1) 0 0).run [lateObject] as = some s) : s.Allowed e := by
  rcases as with _ | ⟨e₁, _ | ⟨e₂, _ | ⟨e₃, as⟩⟩⟩
  · cases hsplit
    have h := phase_of_all .unknown (by decide +kernel) has
    refine ⟨List.nodup_singleton _, fun x hx => ?_⟩
    rw [List.mem_singleton.mp hx]
    exact Or.inl h
  · cases hsplit
    have h := phase_of_all .awaited (by decide +kernel) has
    intro hunknown
    rw [h] at hunknown
    cases hunknown
  · cases hsplit
    have h := phase_of_all .awaited (by decide +kernel) has
    exact Or.inr h
  · have hlen := congrArg List.length hsplit
    simp [lateRun] at hlen

/-- The first byte that the GET_CHUNK request is answered with is that of a chunk of zeros, and the
object is not. -/
theorem not_answers_lateRun : ∃ s, (init (.raid5 1) 0 0).run [lateObject] lateRun = some s ∧
    (∀ m, .event m ∈ lateRun → m.WellFormed (.raid5 1) [lateObject]) ∧
    (∀ as e bs s, lateRun = as ++ e :: bs →
      (init (.raid5 1) 0 0).run [lateObject] as = some s → s.Allowed e) ∧
    ¬s.Answers [lateObject] := by
  have hbytes : ((init (.raid5 1) 0 0).run [lateObject] lateRun).any (fun s =>
      (s.buffer.backup 0).isSome &&
        s.encoded (s.taken 0) (s.buffer.handleGetChunkRequest 0).2.2 0 == 1 &&
        (s.buffer.handleGetChunkRequest 0).2.1.any fun chunk => chunk 0 == 0) = true := by
    decide +kernel
  obtain ⟨s, hs, hsent⟩ := (Option.any_eq_true _ _).mp hbytes
  refine ⟨s, hs, fun m => lateRun_wellFormed, lateRun_allowed, ?_⟩
  intro hanswers
  simp only [Bool.and_eq_true, beq_iff_eq, Option.any_eq_true] at hsent
  obtain ⟨⟨hbackup, hdata⟩, chunk, hchunk, hbyte⟩ := hsent
  have hsame := hanswers 0 chunk _ (Prod.ext hchunk rfl) 0 (by decide)
  rw [if_pos hbackup, hbyte, hdata] at hsame
  cases hsame

end BackedUp

end MemEC.Server
