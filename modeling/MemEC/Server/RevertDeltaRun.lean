import MemEC.Server.RevertDelta

/-!
# Runs with updates that are reverted

`Follows es s` says that the buffers of the server are what the events `es` make
of them. A backed-up delta remembers whether it went to the stored object or to
the parity chunk; `Backs` connects it to its event. Reverting it takes a server
that follows `es` to one that follows `es` with this event once more at the end.
-/

namespace MemEC.Server

open MemEC.Lib MemEC.Common KeyValue

variable {cfg : GlobalConfig}

/-- A message with the object that it is about. -/
inductive ParityEvent (cfg : GlobalConfig)
  | other (listId : ℕ) (e : Event cfg)
  | update (tag : DeltaTag) (listId : ℕ) (x : Item cfg) (valueUpdateOffset : ℕ)
    (valueUpdate : List UInt8)
  | updateChunk (tag : DeltaTag) (listId : ℕ) (header : ChunkUpdateHeader)

/-- Where a backup comes from. -/
def ParityMessage.tag : ParityMessage → Option DeltaTag
  | .other _ _ => none
  | .update tag _ _ => some tag
  | .updateChunk tag _ _ => some tag

/-- The request names the delta of the message. -/
def ParityMessage.named (timestamps : List ℕ) (targetId : ℕ) (m : ParityMessage) : Bool :=
  m.tag.any (DeltaTag.named timestamps targetId)

namespace ParityEvent

def message : ParityEvent cfg → ParityMessage
  | other listId e => .other listId e.message
  | update tag listId x offset valueUpdate =>
    .update tag listId (x.updateHeader offset valueUpdate)
  | updateChunk tag listId header => .updateChunk tag listId header

def listId : ParityEvent cfg → ℕ
  | other listId _ => listId
  | update _ listId _ _ _ => listId
  | updateChunk _ listId _ => listId

/-- What the ledger of the list is told. -/
def event : ParityEvent cfg → Option (Event cfg)
  | other _ e => some e
  | update _ _ x offset valueUpdate => some (.update x offset valueUpdate)
  | updateChunk _ _ _ => none

/-- What goes to the parity chunks whatever the ledger says. -/
def extra : ParityEvent cfg → ℕ → ℕ → Memory
  | updateChunk _ _ header =>
    Pi.single header.stripeId (Pi.single header.chunkId (.place header.offset header.delta))
  | _ => 0

end ParityEvent

/-- The events of a list. -/
def ofList (l : ℕ) (es : List (ParityEvent cfg)) : List (ParityEvent cfg) :=
  es.filter fun e => e.listId = l

/-- The ledger of a list. -/
def ledgerOf (es : List (ParityEvent cfg)) (l : ℕ) : Ledger cfg :=
  ((ofList l es).filterMap ParityEvent.event).foldl Event.apply .init

def extraOf (es : List (ParityEvent cfg)) (l : ℕ) : ℕ → ℕ → Memory :=
  ((ofList l es).map ParityEvent.extra).sum

/-- The event may come after the events `past`: SETs and listings come once, and a key is updated
when it is known. -/
def ParityEvent.Comes (c : Coding cfg) (items : ℕ → List (Item cfg))
    (past : List (ParityEvent cfg)) : ParityEvent cfg → Prop
  | other l e => e.WellFormed c (items l) ∧ e.Allowed (ledgerOf past l)
  | update _ l x offset valueUpdate =>
    (Event.update x offset valueUpdate).WellFormed c (items l) ∧
      (Event.update x offset valueUpdate).Allowed (ledgerOf past l)
  | updateChunk _ _ header =>
    header.chunkId < c.dataChunkCount ∧ header.offset + header.delta.length ≤ cfg.chunkSize

/-- An update that the request names does not change a stored split of a large object. -/
def ParityEvent.FoundAgain (timestamps : List ℕ) (targetId : ℕ) (past : List (ParityEvent cfg)) :
    ParityEvent cfg → Prop
  | update tag l x _ _ => tag.named timestamps targetId = true →
      x.object.isLarge = false ∨ (ledgerOf past l x).phase ≠ .stored
  | other _ _ | updateChunk _ _ _ => True

variable {c : Coding cfg} {parity : ℕ → ℕ} {items : ℕ → List (Item cfg)}
  {es : List (ParityEvent cfg)} {s : ParityServer cfg} {timestamps : List ℕ} {targetId : ℕ}

/-! ## The ledgers -/

theorem ofList_concat (l : ℕ) (es : List (ParityEvent cfg)) (e : ParityEvent cfg) :
    ofList l (es ++ [e]) = ofList l es ++ if e.listId = l then [e] else [] := by
  by_cases hl : e.listId = l
  · simp [ofList, List.filter_append, hl]
  · simp [ofList, List.filter_append, hl]

theorem ledgerOf_of_ne {l : ℕ} {e : ParityEvent cfg} (h : e.listId ≠ l) :
    ledgerOf (es ++ [e]) l = ledgerOf es l := by
  rw [ledgerOf, ofList_concat, if_neg h, List.append_nil, ledgerOf]

theorem extraOf_of_ne {l : ℕ} {e : ParityEvent cfg} (h : e.listId ≠ l) :
    extraOf (es ++ [e]) l = extraOf es l := by
  rw [extraOf, ofList_concat, if_neg h, List.append_nil, extraOf]

theorem extraOf_self (e : ParityEvent cfg) :
    extraOf (es ++ [e]) e.listId = extraOf es e.listId + e.extra := by
  rw [extraOf, ofList_concat, if_pos rfl, List.map_append, List.sum_append, List.map_singleton,
    List.sum_singleton, extraOf]

theorem ledgerOf_of_some {e : ParityEvent cfg} {e' : Event cfg} (h : e.event = some e') :
    ledgerOf (es ++ [e]) e.listId = e'.apply (ledgerOf es e.listId) := by
  rw [ledgerOf, ofList_concat, if_pos rfl, List.filterMap_append, List.foldl_append]
  simp only [List.filterMap_cons, h, List.filterMap_nil, List.foldl_cons, List.foldl_nil, ledgerOf]

theorem ledgerOf_of_none {e : ParityEvent cfg} (h : e.event = none) :
    ledgerOf (es ++ [e]) e.listId = ledgerOf es e.listId := by
  rw [ledgerOf, ofList_concat, if_pos rfl, List.filterMap_append, List.foldl_append]
  simp only [List.filterMap_cons, h, List.filterMap_nil, List.foldl_nil, ledgerOf]

/-! ## What the server follows -/

structure Follows (c : Coding cfg) (parity : ℕ → ℕ) (items : ℕ → List (Item cfg))
    (es : List (ParityEvent cfg)) (s : ParityServer cfg) : Prop where
  tracks : ∀ l, Tracks c (c.dataChunkCount + parity l) (items l) (ledgerOf es l)
    ((ledgerOf es l).data (items l) + extraOf es l) (s.buffers l)
  others : ∀ l k, (∀ x ∈ items l, x.key.ident ≠ k.ident) → (s.buffers l).keys.find k = none

/-- A server that has not received anything. -/
def ParityServer.start (c : Coding cfg) (parity : ℕ → ℕ) : ParityServer cfg where
  buffers l := .fresh c l (parity l)
  parityUpdate := .empty

theorem Follows.start (c : Coding cfg) (parity : ℕ → ℕ) (items : ℕ → List (Item cfg)) :
    Follows c parity items [] (.start c parity) where
  tracks l := Tracks.init c l (parity l) (items l)
  others _ _ _ := rfl

namespace Follows

/-- An event changes the buffer of its list. -/
theorem setBuffer (h : Follows c parity items es s) (e : ParityEvent cfg)
    {b : ParityChunkBuffer cfg}
    (htracks : Tracks c (c.dataChunkCount + parity e.listId) (items e.listId)
      (ledgerOf (es ++ [e]) e.listId)
      ((ledgerOf (es ++ [e]) e.listId).data (items e.listId) + extraOf (es ++ [e]) e.listId) b)
    (hothers : ∀ k, (∀ x ∈ items e.listId, x.key.ident ≠ k.ident) → b.keys.find k = none) :
    Follows c parity items (es ++ [e]) (s.setBuffer e.listId b) := by
  constructor
  · intro l
    by_cases hl : l = e.listId
    · subst hl
      simp only [ParityServer.setBuffer, Function.update_self]
      exact htracks
    · simp only [ParityServer.setBuffer, Function.update_of_ne hl]
      rw [ledgerOf_of_ne (Ne.symm hl), extraOf_of_ne (Ne.symm hl)]
      exact h.tracks l
  · intro l k hk
    by_cases hl : l = e.listId
    · subst hl
      simp only [ParityServer.setBuffer, Function.update_self]
      exact hothers k hk
    · simp only [ParityServer.setBuffer, Function.update_of_ne hl]
      exact h.others l k hk

theorem congr {s' : ParityServer cfg} (h : Follows c parity items es s)
    (hs : s'.buffers = s.buffers) : Follows c parity items es s' where
  tracks := by
    rw [hs]
    exact h.tracks
  others := by
    rw [hs]
    exact h.others

end Follows

/-! ## Keys that no object has -/

namespace ParityChunkBuffer

variable {b b' : ParityChunkBuffer cfg} {k : Key}

theorem find_updateKeyValue (h : b.keys.find k = none) (key : Key) (offset : ℕ)
    (valueUpdate : List UInt8) :
    (b.updateKeyValue key offset valueUpdate).1.keys.find k = none := by
  unfold updateKeyValue
  split
  · exact h
  · next keyValue hfind =>
    have hne : k.ident ≠ key.ident := by
      intro heq
      rw [b.keys.find_congr heq, hfind] at h
      cases h
    exact (KeyMap.find_assign _ _ _ _).trans ((if_neg hne).trans h)

theorem keys_update {stripeId chunkId offset size : ℕ} {dataChunk : Memory}
    {isSeal isDelete backup : Bool}
    (h : b.update stripeId chunkId offset size dataChunk isSeal isDelete backup = some b') :
    b'.keys = b.keys := by
  rw [update] at h
  split_ifs at h
  obtain rfl := Option.some.inj h
  rfl

theorem find_handleUpdateRequest {header : ChunkKeyValueUpdateHeader}
    (hb : b.handleUpdateRequest header = some b') (h : b.keys.find k = none) :
    b'.keys.find k = none := by
  have hfind := find_updateKeyValue h header.key header.valueUpdateOffset header.valueUpdate
  simp only [handleUpdateRequest] at hb
  split_ifs at hb
  · obtain rfl := Option.some.inj hb
    exact hfind
  · have hkeys := keys_update hb
    rw [hkeys]
    exact hfind

theorem find_sealChunk {request : SealRequest} (hb : b.handle (.sealChunk request) = some b')
    (h : b.keys.find k = none) : b'.keys.find k = none := by
  have hstep : ∀ (records : List SealRecord) (s : SealLoop cfg), s.buffer.keys.find k = none →
      (records.foldl (sealStep request.stripeId) s).buffer.keys.find k = none := by
    intro records
    induction records with
    | nil => exact fun s hs => hs
    | cons r records ih =>
      intro s hs
      apply ih
      cases hfind : s.buffer.keys.find r.key with
      | none =>
        rw [(sealStep_of_none hfind request.stripeId).1]
        exact hs
      | some keyValue =>
        rw [(sealStep_of_some hfind request.stripeId).1, KeyMap.find_eraseKey]
        split_ifs
        · rfl
        · exact hs
  rw [(sealChunk_maps hb).1]
  exact hstep request.records _ h

theorem find_handleSetRequest {o : Object cfg} {chunkId : ℕ}
    (hb : b.handleSetRequest o.bytes chunkId = some b') (hne : k.ident ≠ o.mapKey.ident)
    (h : b.keys.find k = none) : b'.keys.find k = none := by
  rw [handleSetRequest_eq] at hb
  split_ifs at hb
  · obtain rfl := Option.some.inj hb
    exact h
  · split at hb
    · obtain rfl := Option.some.inj hb
      exact (KeyMap.find_insertNew _ _ _ _).trans ((if_neg fun hk => hne hk.1).trans h)
    · have hkeys := keys_update hb
      rw [hkeys]
      exact h
    · obtain rfl := Option.some.inj hb
      exact h

end ParityChunkBuffer

/-- A message stores no object but its own. -/
theorem Event.find_handle {e : Event cfg} {xs : List (Item cfg)} {b b' : ParityChunkBuffer cfg}
    {k : Key} (hb : b.handle e.message = some b') (hwf : e.WellFormed c xs)
    (hk : ∀ x ∈ xs, x.key.ident ≠ k.ident) (h : b.keys.find k = none) : b'.keys.find k = none := by
  cases e with
  | set x => exact ParityChunkBuffer.find_handleSetRequest hb (hk x hwf).symm h
  | sealChunk request xs => exact ParityChunkBuffer.find_sealChunk hb h
  | update x offset valueUpdate => exact ParityChunkBuffer.find_handleUpdateRequest hb h

/-! ## Messages -/

namespace Follows

/-- A message that the ledger is told of. -/
theorem event (h : Follows c parity items es s) {e : ParityEvent cfg} {e' : Event cfg}
    (hevent : e.event = some e') (hextra : e.extra = 0)
    (hc : Catalogued c (items e.listId)) (hwf : e'.WellFormed c (items e.listId))
    (hallowed : e'.Allowed (ledgerOf es e.listId)) :
    ∃ b, (s.buffers e.listId).handle e'.message = some b ∧
      Follows c parity items (es ++ [e]) (s.setBuffer e.listId b) := by
  obtain ⟨b, hb, htracks⟩ := (h.tracks e.listId).step hc hwf hallowed
  refine ⟨b, hb, h.setBuffer e ?_ ?_⟩
  · rw [ledgerOf_of_some hevent, extraOf_self, hextra, add_zero]
    exact htracks
  · intro k hk
    exact Event.find_handle hb hwf hk (h.others e.listId k hk)

/-- A delta that goes to the parity chunk. -/
theorem chunkDelta (h : Follows c parity items es s) (tag : DeltaTag) (l : ℕ)
    {header : ChunkUpdateHeader} {b : ParityChunkBuffer cfg}
    (hcoding : b.coding = (s.buffers l).coding) (hid : b.chunkId = (s.buffers l).chunkId)
    (hkeys : b.keys = (s.buffers l).keys) (hfolded : b.folded = (s.buffers l).folded)
    (hpending : b.pending = (s.buffers l).pending)
    (hencodes : b.Encodes ((ledgerOf es l).data (items l) + extraOf es l +
      Pi.single header.stripeId (Pi.single header.chunkId (.place header.offset header.delta)))) :
    Follows c parity items (es ++ [.updateChunk tag l header]) (s.setBuffer l b) := by
  have htracks := h.tracks l
  have hledger : ledgerOf (es ++ [.updateChunk tag l header]) l = ledgerOf es l :=
    ledgerOf_of_none (e := .updateChunk tag l header) rfl
  have hextra : extraOf (es ++ [.updateChunk tag l header]) l = extraOf es l +
      Pi.single header.stripeId (Pi.single header.chunkId (.place header.offset header.delta)) :=
    extraOf_self (.updateChunk tag l header)
  apply h.setBuffer (.updateChunk tag l header)
  · simp only [ParityEvent.listId]
    rw [hledger, hextra, ← add_assoc]
    refine ⟨hcoding.trans htracks.coding, hid.trans htracks.chunkId, ?_, hencodes⟩
    intro x hx
    exact (htracks.agrees x hx).congr (by rw [hkeys]) (by rw [hpending]) (by rw [hfolded])
  · intro k hk
    rw [hkeys]
    exact h.others l k hk

theorem step (h : Follows c parity items es s) (hc : ∀ l, Catalogued c (items l))
    {e : ParityEvent cfg} (hcomes : e.Comes c items es) :
    ∃ s', s.step e.message = some s' ∧ Follows c parity items (es ++ [e]) s' := by
  cases e with
  | other l e =>
    obtain ⟨b, hb, hfollows⟩ := h.event (e := .other l e) rfl rfl (hc l) hcomes.1 hcomes.2
    refine ⟨s.setBuffer l b, ?_, hfollows⟩
    exact congrArg (Option.map (s.setBuffer l)) hb
  | update tag l x v delta =>
    obtain ⟨b, hb, hfollows⟩ := h.event (e := .update tag l x v delta) rfl rfl (hc l) hcomes.1
      hcomes.2
    have hb' : (s.buffers l).handleUpdateRequest (x.updateHeader v delta) = some b := hb
    simp only [ParityServer.step, ParityEvent.message, hb', Option.map_some]
    exact ⟨_, rfl, hfollows.congr rfl⟩
  | updateChunk tag l header =>
    have htracks := h.tracks l
    obtain ⟨b, hb, hcoding, hid, hkeys, hfolded, hpending, hencodes⟩ :=
      ParityChunkBuffer.updateChunk_eq (htracks.encodes.prepare header.stripeId
        (s.buffers l).pending ((s.buffers l).getChunkBuffer.insertBackup
          ⟨(s.buffers l).listId, header.stripeId, (s.buffers l).chunkId⟩
          (((s.buffers l).chunks.lookup header.stripeId).map ParityChunkWrapper.chunk)
          (((s.buffers l).getWrapper header.stripeId).pending.map (!·)))) header.stripeId
        (by rw [htracks.coding]; exact hcomes.1) hcomes.2
    have hb' : (s.buffers l).handleUpdateChunkRequest header = some b := hb
    simp only [ParityServer.step, ParityEvent.message, hb', Option.map_some]
    refine ⟨_, rfl, ?_⟩
    exact (h.chunkDelta tag l hcoding hid hkeys hfolded hpending hencodes).congr rfl

end Follows

/-! ## Backups -/

/-- The delta is the backup of the event, which went to the stored object or to the parity chunk. -/
inductive Backs (c : Coding cfg) (items : ℕ → List (Item cfg)) (es : List (ParityEvent cfg)) :
    BackupDelta → ParityEvent cfg → Prop
  | stored {tag : DeltaTag} {l : ℕ} {x : Item cfg} {v : ℕ} {delta : List UInt8}
      (hwf : (Event.update x v delta).WellFormed c (items l))
      (hphase : (ledgerOf es l x).phase = .stored ∨ (ledgerOf es l x).phase = .folded) :
      Backs c items es ((x.updateHeader v delta).backup tag l false) (.update tag l x v delta)
  | listed {tag : DeltaTag} {l : ℕ} {x : Item cfg} {v : ℕ} {delta : List UInt8}
      (hwf : (Event.update x v delta).WellFormed c (items l))
      (hphase : (ledgerOf es l x).phase = .awaited ∨ (ledgerOf es l x).phase = .folded) :
      Backs c items es ((x.updateHeader v delta).backup tag l true) (.update tag l x v delta)
  | chunk {tag : DeltaTag} {l : ℕ} {header : ChunkUpdateHeader}
      (hchunk : header.chunkId < c.dataChunkCount)
      (hfits : header.offset + header.delta.length ≤ cfg.chunkSize) :
      Backs c items es (header.backup tag l) (.updateChunk tag l header)

/-- A phase can only go on. -/
theorem Event.phase_mono (e : Event cfg) (l : Ledger cfg) (x : Item cfg) :
    ((l x).phase = .stored → (e.apply l x).phase = .stored ∨ (e.apply l x).phase = .folded) ∧
      ((l x).phase = .awaited → (e.apply l x).phase = .awaited ∨ (e.apply l x).phase = .folded) ∧
      ((l x).phase = .folded → (e.apply l x).phase = .folded) := by
  refine ⟨fun h => ?_, fun h => ?_, fun h => ?_⟩
  · have happly := e.phase_apply l x (show (l x).phase = .of true false from h)
    rw [happly]
    cases decide (x ∈ e.listings) with
    | false => exact Or.inl rfl
    | true => exact Or.inr rfl
  · have happly := e.phase_apply l x (show (l x).phase = .of false true from h)
    rw [happly]
    cases decide (x ∈ e.arrivals) with
    | false => exact Or.inl rfl
    | true => exact Or.inr rfl
  · exact e.phase_apply l x (show (l x).phase = .of true true from h)

theorem phase_mono (es : List (ParityEvent cfg)) (e : ParityEvent cfg) (l : ℕ) (x : Item cfg) :
    let phase := (ledgerOf es l x).phase
    let phase' := (ledgerOf (es ++ [e]) l x).phase
    (phase = .stored → phase' = .stored ∨ phase' = .folded) ∧
      (phase = .awaited → phase' = .awaited ∨ phase' = .folded) ∧
      (phase = .folded → phase' = .folded) := by
  by_cases hl : e.listId = l
  · subst hl
    cases he : e.event with
    | none =>
      rw [ledgerOf_of_none he]
      exact ⟨Or.inl, Or.inl, id⟩
    | some e' =>
      rw [ledgerOf_of_some he]
      exact e'.phase_mono (ledgerOf es e.listId) x
  · rw [ledgerOf_of_ne hl]
    exact ⟨Or.inl, Or.inl, id⟩

theorem Backs.concat {d : BackupDelta} {u : ParityEvent cfg} (h : Backs c items es d u)
    (e : ParityEvent cfg) : Backs c items (es ++ [e]) d u := by
  cases h with
  | @stored tag l x v delta hwf hphase =>
    obtain ⟨hstored, -, hfolded⟩ := phase_mono es e l x
    exact .stored hwf (hphase.elim hstored fun hphase => Or.inr (hfolded hphase))
  | @listed tag l x v delta hwf hphase =>
    obtain ⟨-, hawaited, hfolded⟩ := phase_mono es e l x
    exact .listed hwf (hphase.elim hawaited fun hphase => Or.inr (hfolded hphase))
  | chunk hchunk hfits => exact .chunk hchunk hfits

theorem Backs.tag_eq {d : BackupDelta} {u : ParityEvent cfg} (h : Backs c items es d u) :
    u.message.tag = some d.toDeltaTag := by
  cases h <;> rfl

/-- The events that leave a backup. -/
def backedUp (es : List (ParityEvent cfg)) : List (ParityEvent cfg) :=
  es.filter fun e => e.message.tag.isSome

theorem snd_updateKeyValue (b : ParityChunkBuffer cfg) (key : Key) (offset : ℕ)
    (valueUpdate : List UInt8) :
    (b.updateKeyValue key offset valueUpdate).2 = (b.keys.find key).isSome := by
  unfold ParityChunkBuffer.updateKeyValue
  split
  · next h => rw [h]; rfl
  · next h => rw [h]; rfl

/-- What may be reverted: a split of a large object only if the delta went to the parity chunk. -/
def Revertible (d : BackupDelta) : ParityEvent cfg → Prop
  | .update _ _ x _ _ => d.isChunkDelta = true ∨ x.object.isLarge = false
  | _ => True

/-- The backups of the server are those of the events, and those that the request names can be
reverted. -/
structure BacksAll (c : Coding cfg) (parity : ℕ → ℕ) (items : ℕ → List (Item cfg))
    (timestamps : List ℕ) (targetId : ℕ) (es : List (ParityEvent cfg)) (s : ParityServer cfg) :
    Prop extends Follows c parity items es s where
  backups : ∃ us, List.Forall₂ (fun d u => Backs c items es d u ∧
      (d.named timestamps targetId = true → Revertible d u)) s.parityUpdate.entries us ∧
    us.Perm (backedUp es)

namespace BacksAll

/-- An event that leaves no backup. -/
theorem other (h : BacksAll c parity items timestamps targetId es s) {e : ParityEvent cfg}
    {s' : ParityServer cfg}
    (hfollows : Follows c parity items (es ++ [e]) s') (he : e.message.tag = none)
    (hs : s'.parityUpdate = s.parityUpdate) :
    BacksAll c parity items timestamps targetId (es ++ [e]) s' := by
  refine ⟨hfollows, ?_⟩
  obtain ⟨us, hback, hperm⟩ := h.backups
  refine ⟨us, ?_, ?_⟩
  · rw [hs]
    exact hback.imp fun _ _ hb => ⟨hb.1.concat e, hb.2⟩
  · simp only [backedUp, List.filter_append, List.filter_singleton, he, Option.isSome_none,
      cond_false, List.append_nil]
    exact hperm

/-- An event that leaves a backup. -/
theorem insert (h : BacksAll c parity items timestamps targetId es s) {e : ParityEvent cfg}
    {s' : ParityServer cfg}
    (hfollows : Follows c parity items (es ++ [e]) s') {d : BackupDelta}
    (hd : Backs c items (es ++ [e]) d e)
    (hrev : d.named timestamps targetId = true → Revertible d e)
    (hs : s'.parityUpdate = s.parityUpdate.insert d) :
    BacksAll c parity items timestamps targetId (es ++ [e]) s' := by
  refine ⟨hfollows, ?_⟩
  obtain ⟨us, hback, hperm⟩ := h.backups
  have hall : List.Forall₂ (fun d u => Backs c items (es ++ [e]) d u ∧
      (d.named timestamps targetId = true → Revertible d u)) (d :: s.parityUpdate.entries)
      (e :: us) := .cons ⟨hd, hrev⟩ (hback.imp fun _ _ hb => ⟨hb.1.concat e, hb.2⟩)
  have hinsert : (s.parityUpdate.insert d).entries.Perm (d :: s.parityUpdate.entries) :=
    Multimap.insertEntry_perm d s.parityUpdate.entries
  obtain ⟨us', hback', hperm'⟩ := List.perm_comp_forall₂ hinsert hall
  refine ⟨us', ?_, ?_⟩
  · rw [hs]
    exact hback'
  · have htag := hd.tag_eq
    simp only [backedUp, List.filter_append, List.filter_singleton, htag, Option.isSome_some,
      cond_true]
    exact hperm'.trans ((hperm.cons e).trans (List.perm_append_singleton e _).symm)

/-- An update is backed up as what it was applied to. -/
theorem backs_update (h : BacksAll c parity items timestamps targetId es s) {tag : DeltaTag}
    {l : ℕ} {x : Item cfg}
    {v : ℕ} {delta : List UInt8}
    (hcomes : (ParityEvent.update tag l x v delta).Comes c items es)
    (hfound : (ParityEvent.update tag l x v delta).FoundAgain timestamps targetId es) :
    let d := (x.updateHeader v delta).backup tag l
      (!((s.buffers l).updateKeyValue x.key v delta).2)
    Backs c items es d (.update tag l x v delta) ∧
      (d.named timestamps targetId = true → Revertible d (.update tag l x v delta)) := by
  obtain ⟨hwf, hknown⟩ := hcomes
  have htracks := h.tracks l
  dsimp only
  rw [snd_updateKeyValue]
  cases hphase : (ledgerOf es l x).phase with
  | unknown => exact absurd hphase hknown
  | stored =>
    have hagrees := htracks.agrees x hwf.1
    simp only [Agrees, hphase] at hagrees
    rw [hagrees.1]
    refine ⟨.stored hwf (Or.inl hphase), fun hnamed => Or.inr ?_⟩
    exact (hfound hnamed).resolve_right fun hne => hne hphase
  | awaited =>
    rw [htracks.find_of_listed hwf.1 (Or.inl hphase)]
    exact ⟨.listed hwf (Or.inl hphase), fun _ => Or.inl rfl⟩
  | folded =>
    rw [htracks.find_of_listed hwf.1 (Or.inr hphase)]
    exact ⟨.listed hwf (Or.inr hphase), fun _ => Or.inl rfl⟩

theorem step (h : BacksAll c parity items timestamps targetId es s)
    (hc : ∀ l, Catalogued c (items l))
    {e : ParityEvent cfg} (hcomes : e.Comes c items es)
    (hfound : e.FoundAgain timestamps targetId es) :
    ∃ s', s.step e.message = some s' ∧
      BacksAll c parity items timestamps targetId (es ++ [e]) s' := by
  obtain ⟨s', hs', hfollows⟩ := h.toFollows.step hc hcomes
  refine ⟨s', hs', ?_⟩
  cases e with
  | other l e =>
    obtain ⟨b, -, rfl⟩ := Option.map_eq_some_iff.mp hs'
    exact h.other hfollows rfl rfl
  | update tag l x v delta =>
    obtain ⟨b, -, rfl⟩ := Option.map_eq_some_iff.mp hs'
    obtain ⟨hd, hrev⟩ := h.backs_update hcomes hfound
    exact h.insert hfollows (hd.concat _) hrev rfl
  | updateChunk tag l header =>
    simp only [ParityServer.step, ParityEvent.message] at hs'
    obtain ⟨b, -, rfl⟩ := Option.map_eq_some_iff.mp hs'
    exact h.insert hfollows (.chunk hcomes.1 hcomes.2) (fun _ => trivial) rfl

end BacksAll

theorem BacksAll.start (c : Coding cfg) (parity : ℕ → ℕ) (items : ℕ → List (Item cfg))
    (timestamps : List ℕ) (targetId : ℕ) :
    BacksAll c parity items timestamps targetId [] (.start c parity) where
  toFollows := Follows.start c parity items
  backups := ⟨[], .nil, .nil⟩

/-- A run whose events may come at their time. -/
theorem backsAll_run (parity : ℕ → ℕ) (hc : ∀ l, Catalogued c (items l))
    (hcomes : ∀ as (e : ParityEvent cfg) bs, es = as ++ e :: bs →
      e.Comes c items as ∧ e.FoundAgain timestamps targetId as) :
    ∃ s, (ParityServer.start c parity).after (es.map ParityEvent.message) = some s ∧
      BacksAll c parity items timestamps targetId es s := by
  induction es using List.reverseRecOn with
  | nil => exact ⟨_, rfl, BacksAll.start c parity items timestamps targetId⟩
  | append_singleton es e ih =>
    obtain ⟨s, hs, hbacks⟩ := ih fun as e' bs heq =>
      hcomes as e' (bs ++ [e]) (by rw [heq, List.append_assoc]; rfl)
    obtain ⟨hcome, hfound⟩ := hcomes es e [] rfl
    obtain ⟨s', hs', hbacks'⟩ := hbacks.step hc hcome hfound
    refine ⟨s', ?_, hbacks'⟩
    rw [List.map_append, List.map_singleton, ParityServer.after, tryRun_concat]
    rw [ParityServer.after] at hs
    rw [hs]
    exact hs'

/-! ## Reverting -/

/-- The key of a plain object is found again. -/
theorem Item.plain_backup {x : Item cfg} (hplain : x.object.isLarge = false) (tag : DeltaTag)
    (l v : ℕ) (delta : List UInt8) (isChunkDelta : Bool) :
    Key.plain ((x.updateHeader v delta).backup tag l isChunkDelta).key = x.key := by
  have hkey : x.key = .plain x.object.key := Object.mapKey_of_plain hplain
  have hbytes : ((x.updateHeader v delta).backup tag l isChunkDelta).key = x.object.key := by
    simp only [ChunkKeyValueUpdateHeader.backup, Item.updateHeader, hkey, Key.plain,
      List.take_length]
  rw [hbytes, hkey]

namespace Follows

/-- The delta of an object goes to the parity chunk. -/
theorem updateChunk (h : Follows c parity items es s) (hc : ∀ l, Catalogued c (items l)) {l : ℕ}
    {x : Item cfg} {v : ℕ} {delta : List UInt8}
    (hwf : (Event.update x v delta).WellFormed c (items l)) {b : ParityChunkBuffer cfg}
    (hcoding : b.coding = (s.buffers l).coding)
    (hencodes : b.Encodes ((ledgerOf es l).data (items l) + extraOf es l)) :
    ∃ b', b.updateChunk x.stripeId x.chunkId (x.updateHeader v delta).chunkUpdateOffset delta
        false = some b' ∧ b'.coding = b.coding ∧ b'.chunkId = b.chunkId ∧ b'.keys = b.keys ∧
      b'.folded = b.folded ∧ b'.pending = b.pending ∧
      b'.Encodes ((ledgerOf es l).data (items l) + extraOf es l +
        x.inject (x.revision v delta)) := by
  have hfits := (hc l).fits x hwf.1
  have hadd := x.payloadOffset_add
  have hv : v + delta.length ≤ x.object.payload.length := hwf.2
  have hoff : (x.updateHeader v delta).chunkUpdateOffset = x.payloadOffset + v :=
    x.chunkUpdateOffset_eq (by omega) hfits
  rw [hoff]
  apply ParityChunkBuffer.updateChunk_eq hencodes
  · rw [hcoding, (h.tracks l).coding]
    exact (hc l).chunkId_lt x hwf.1
  · omega

/-- The delta of an object that has been listed went to the parity chunk. -/
theorem objectDelta (h : Follows c parity items es s) (hc : ∀ l, Catalogued c (items l))
    {tag : DeltaTag} {l : ℕ} {x : Item cfg} {v : ℕ} {delta : List UInt8}
    (hwf : (Event.update x v delta).WellFormed c (items l))
    (hphase : (ledgerOf es l x).phase = .awaited ∨ (ledgerOf es l x).phase = .folded)
    {b : ParityChunkBuffer cfg} (hcoding : b.coding = (s.buffers l).coding)
    (hid : b.chunkId = (s.buffers l).chunkId) (hkeys : b.keys = (s.buffers l).keys)
    (hfolded : b.folded = (s.buffers l).folded)
    (hpending : b.pending = (s.buffers l).pending ∨ ∃ offset length buf, b.pending =
      ((s.buffers l).pending.insertNew x.key (.prtUpdate offset length buf)).1)
    (hencodes : b.Encodes ((ledgerOf es l).data (items l) + extraOf es l +
      x.inject (x.revision v delta))) :
    Follows c parity items (es ++ [.update tag l x v delta]) (s.setBuffer l b) := by
  have htracks := (h.tracks l).revise_chunk (hc l) hwf.1 hphase hcoding hid hkeys hfolded hpending
    hencodes
  have hledger : ledgerOf (es ++ [.update tag l x v delta]) l =
      (Event.update x v delta).apply (ledgerOf es l) :=
    ledgerOf_of_some (e := .update tag l x v delta) rfl
  have hextra : extraOf (es ++ [.update tag l x v delta]) l = extraOf es l + 0 :=
    extraOf_self (.update tag l x v delta)
  apply h.setBuffer (.update tag l x v delta)
  · simp only [ParityEvent.listId]
    rw [hledger, hextra, add_zero]
    exact htracks
  · intro k hk
    rw [hkeys]
    exact h.others l k hk

/-- To revert an event is to have it once more. -/
theorem revert (h : Follows c parity items es s) (hc : ∀ l, Catalogued c (items l))
    {d : BackupDelta} {u : ParityEvent cfg} (hd : Backs c items es d u) (hrev : Revertible d u) :
    d.metadata.listId = u.listId ∧ ∃ b, (s.buffers u.listId).revert d = some b ∧
      Follows c parity items (es ++ [u]) (s.setBuffer u.listId b) := by
  cases hd with
  | @stored tag l x v delta hwf hphase =>
    have hplain := hrev.resolve_left Bool.false_ne_true
    have hkey := x.plain_backup hplain tag l v delta false
    rcases hphase with hphase | hphase
    · -- The object is still stored.
      have hagrees := (h.tracks l).agrees x hwf.1
      simp only [Agrees, hphase] at hagrees
      obtain ⟨b, hb, hfollows⟩ := h.event (e := .update tag l x v delta) rfl rfl (hc l) hwf
        (show (ledgerOf es l x).phase ≠ .unknown by rw [hphase]; exact Phase.noConfusion)
      refine ⟨rfl, b, ?_, hfollows⟩
      have hrequest : (s.buffers l).handleUpdateRequest (x.updateHeader v delta) = some b := hb
      rw [ParityChunkBuffer.handleUpdateRequest_of_some rfl hagrees.1] at hrequest
      simp only [ParityChunkBuffer.revert, hkey]
      exact (congrArg (fun r : ParityChunkBuffer cfg × Bool => if r.2 = true then some r.1 else _)
        (ParityChunkBuffer.updateKeyValue_of_some hagrees.1 v delta)).trans hrequest
    · -- It has been sealed since.
      have hfind := (h.tracks l).find_of_listed hwf.1 (Or.inr hphase)
      set pending := ((s.buffers l).pending.insertNew x.key (.prtUpdate v delta.length delta)).1
        with hpending
      have hkeyValue : (s.buffers l).updateKeyValue x.key v delta =
          ({ s.buffers l with pending }, false) := by
        simp only [ParityChunkBuffer.updateKeyValue, hfind, hpending]
      obtain ⟨b, hb, hcoding, hid, hkeys, hfolded, hpending', hencodes⟩ :=
        h.updateChunk hc hwf (b := { s.buffers l with pending }) rfl (h.tracks l).encodes
      refine ⟨rfl, b, ?_, ?_⟩
      · simp only [ParityChunkBuffer.revert, hkey]
        exact (congrArg (fun r : ParityChunkBuffer cfg × Bool => if r.2 = true then some r.1 else
          r.1.updateChunk x.stripeId x.chunkId (x.updateHeader v delta).chunkUpdateOffset delta
            false) hkeyValue).trans hb
      · exact h.objectDelta hc hwf (Or.inr hphase) hcoding hid hkeys hfolded
          (Or.inr ⟨_, _, _, hpending'⟩) hencodes
  | @listed tag l x v delta hwf hphase =>
    obtain ⟨b, hb, hcoding, hid, hkeys, hfolded, hpending, hencodes⟩ :=
      h.updateChunk hc hwf rfl (h.tracks l).encodes
    refine ⟨rfl, b, hb, ?_⟩
    exact h.objectDelta hc hwf hphase hcoding hid hkeys hfolded (Or.inl hpending) hencodes
  | @chunk tag l header hchunk hfits =>
    have htracks := h.tracks l
    obtain ⟨b, hb, hcoding, hid, hkeys, hfolded, hpending, hencodes⟩ :=
      ParityChunkBuffer.updateChunk_eq htracks.encodes header.stripeId
        (by rw [htracks.coding]; exact hchunk) hfits
    refine ⟨rfl, b, hb, ?_⟩
    exact h.chunkDelta tag l hcoding hid hkeys hfolded hpending hencodes

/-- All that is reverted is had once more. -/
theorem revertAll (h : Follows c parity items es s) (hc : ∀ l, Catalogued c (items l))
    {ds : List BackupDelta} {us : List (ParityEvent cfg)}
    (hds : List.Forall₂ (fun d u => Backs c items es d u ∧ Revertible d u) ds us) :
    ∃ s', s.revertAll ds = some s' ∧ s'.parityUpdate = s.parityUpdate ∧
      Follows c parity items (es ++ us) s' := by
  induction ds generalizing es s us with
  | nil =>
    cases hds
    rw [List.append_nil]
    exact ⟨s, rfl, rfl, h⟩
  | cons d ds ih =>
    obtain ⟨u, us, hd, hrest, rfl⟩ := List.forall₂_cons_left_iff.mp hds
    obtain ⟨hlist, b, hb, hfollows⟩ := h.revert hc hd.1 hd.2
    obtain ⟨s', hs', hbackup, hfollows'⟩ := ih hfollows
      (hrest.imp fun _ _ hd => ⟨hd.1.concat u, hd.2⟩)
    refine ⟨s', ?_, hbackup, ?_⟩
    · rw [ParityServer.revertAll, tryRun_cons, hlist, hb]
      exact hs'
    · rwa [List.append_assoc] at hfollows'

end Follows

end MemEC.Server
