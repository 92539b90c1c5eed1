import MemEC.Server.Cluster

/-!
# What the servers of a stripe list do

`ClusterEvent` is what a parity server is sent together with the objects that
it is about. A parity server follows its ledger, and the changes of sealed
chunks go to the parity in addition. A data chunk holds its objects with all
changes that it has sent.
-/

namespace MemEC.Server

open MemEC.Lib MemEC.Common KeyValue ChunkUtil

variable {cfg : GlobalConfig}

/-- A message with the objects that it is about. -/
inductive ClusterEvent (cfg : GlobalConfig)
  | object (e : Event cfg)
  | updateChunk (x : Item cfg) (valueUpdateOffset : ℕ) (delta : List UInt8)

namespace ClusterEvent

/-- The message as it is sent. -/
def message : ClusterEvent cfg → ClusterMessage
  | object e => .object e.message
  | updateChunk x v delta => .updateChunk x.stripeId x.chunkId (x.payloadOffset + v) delta

/-- The event, if its message is about an object. -/
def plain : ClusterEvent cfg → List (Event cfg)
  | object e => [e]
  | updateChunk _ _ _ => []

/-- The change of the stripes by an UPDATE_CHUNK. -/
def direct : ClusterEvent cfg → ℕ → ℕ → Memory
  | object _ => 0
  | updateChunk x v delta => x.inject (x.revision v delta)

/-- The change of its data chunk by an UPDATE_CHUNK. -/
def delta : ClusterEvent cfg → Memory
  | object _ => 0
  | updateChunk x v delta => x.revision v delta

/-- The message is about objects of the stripes. -/
def WellFormed (c : Coding cfg) (items : List (Item cfg)) : ClusterEvent cfg → Prop
  | object e => e.WellFormed c items
  | updateChunk x v delta => x ∈ items ∧ v + delta.length ≤ x.object.payload.length

theorem WellFormed.mono {c : Coding cfg} {items items' : List (Item cfg)} {e : ClusterEvent cfg}
    (h : e.WellFormed c items) (hsub : ∀ x ∈ items, x ∈ items') : e.WellFormed c items' := by
  cases e with
  | object e => exact Event.WellFormed.mono h hsub
  | updateChunk x v delta => exact ⟨hsub x h.1, h.2⟩

theorem wellFormed_of_mem_plain {c : Coding cfg} {items : List (Item cfg)} {e : ClusterEvent cfg}
    (h : e.WellFormed c items) {e' : Event cfg} (he : e' ∈ e.plain) : e'.WellFormed c items := by
  cases e with
  | object e =>
    rw [List.mem_singleton.mp he]
    exact h
  | updateChunk x v delta => cases he

/-- A message about an object comes from an event about it. -/
theorem mem_map_plain {es : List (ClusterEvent cfg)} {m : Message}
    (hm : .object m ∈ es.map message) : m ∈ (es.flatMap plain).map Event.message := by
  obtain ⟨e, he, hmessage⟩ := List.mem_map.mp hm
  cases e with
  | object e' =>
    rw [← ClusterMessage.object.inj hmessage]
    exact List.mem_map_of_mem (List.mem_flatMap.mpr ⟨_, he, List.mem_singleton_self _⟩)
  | updateChunk x v delta => cases hmessage

end ClusterEvent

/-! ## The parity servers -/

namespace ParityChunkBuffer

variable {b : ParityChunkBuffer cfg}

theorem update_isSome (b : ParityChunkBuffer cfg) (stripeId chunkId offset size : ℕ)
    (dataChunk : Memory) (isSeal backup : Bool) :
    ∃ b', b.update stripeId chunkId offset size dataChunk isSeal false backup = some b' := by
  simp only [update, Bool.false_and, Bool.false_eq_true, if_false]
  exact ⟨_, rfl⟩

/-- No assertion fails for a message about objects of the stripes. -/
theorem exists_receive {c : Coding cfg} {items : List (Item cfg)} (b : ParityChunkBuffer cfg)
    {e : ClusterEvent cfg} (h : e.WellFormed c items) : ∃ b', b.receive e.message = some b' := by
  cases e with
  | updateChunk x v delta => exact update_isSome _ _ _ _ _ _ _ _
  | object e =>
    cases e with
    | set x =>
      simp only [ClusterEvent.message, Event.message, receive, handle, handleSetRequest_eq]
      split_ifs
      · exact ⟨b, rfl⟩
      · cases b.pending.find x.object.mapKey with
        | none => exact ⟨_, rfl⟩
        | some request =>
          cases request with
          | prtSeal stripeId offset => exact update_isSome _ _ _ _ _ _ _ _
          | prtUpdate offset length buf => exact ⟨_, rfl⟩
          | prtDelete => exact ⟨_, rfl⟩
    | sealChunk request xs =>
      obtain ⟨hrecords, hcount, -⟩ := h
      have hlen : request.records.length = request.count := by
        rw [hrecords, List.length_map, hcount]
      simp only [ClusterEvent.message, Event.message, receive, handle, sealChunk, if_pos hlen,
        Option.map_map]
      obtain ⟨b', hb'⟩ := update_isSome
        (request.records.foldl (sealStep request.stripeId) ⟨b, 0, 0, true⟩).buffer
        request.stripeId request.chunkId 0
        (request.records.foldl (sealStep request.stripeId) ⟨b, 0, 0, true⟩).curPos
        (request.records.foldl (sealStep request.stripeId) ⟨b, 0, 0, true⟩).data true false
      exact ⟨b', by rw [hb']; rfl⟩
    | update x v delta =>
      simp only [ClusterEvent.message, Event.message, receive, handle, handleUpdateRequest]
      split_ifs
      · exact ⟨_, rfl⟩
      · exact update_isSome _ _ _ _ _ _ _ _

end ParityChunkBuffer

namespace Tracks

variable {c : Coding cfg} {chunkId : ℕ} {items : List (Item cfg)} {l : Ledger cfg}
  {extra : ℕ → ℕ → Memory} {b : ParityChunkBuffer cfg}

/-- The change of a sealed chunk goes to the parity chunk by its position. -/
theorem updateChunk (h : Tracks c chunkId items l (l.data items + extra) b)
    (hc : Catalogued c items) {x : Item cfg} (hx : x ∈ items) {v : ℕ} {delta : List UInt8}
    (hv : v + delta.length ≤ x.object.payload.length) :
    ∃ b', b.handleUpdateChunk x.stripeId x.chunkId (x.payloadOffset + v) delta = some b' ∧
      Tracks c chunkId items l (l.data items + (extra + x.inject (x.revision v delta))) b' := by
  have hfits := hc.fits x hx
  have hadd := x.payloadOffset_add
  have hid : x.chunkId < b.coding.dataChunkCount := h.coding ▸ hc.chunkId_lt x hx
  have hoff : x.payloadOffset + v + delta.length ≤ cfg.chunkSize := by omega
  obtain ⟨b', hb', hcoding, hchunkId, hkeys, hfolded, hpending, hencodes⟩ :=
    ParityChunkBuffer.updateChunk_eq (h.encodes.prepare x.stripeId b.pending
      (b.getChunkBuffer.insertBackup ⟨b.listId, x.stripeId, b.chunkId⟩
        ((b.chunks.lookup x.stripeId).map ParityChunkWrapper.chunk)
        ((b.getWrapper x.stripeId).pending.map (!·)))) x.stripeId hid hoff
  refine ⟨b', hb', ?_⟩
  rw [← add_assoc]
  constructor
  · exact hcoding.trans h.coding
  · exact hchunkId.trans h.chunkId
  · intro y hy
    exact (h.agrees y hy).congr (by rw [hkeys]) (by rw [hpending]) (by rw [hfolded])
  · exact hencodes

/-- One message. -/
theorem receive (h : Tracks c chunkId items l (l.data items + extra) b) (hc : Catalogued c items)
    {e : ClusterEvent cfg} (hwf : e.WellFormed c items) (hallowed : ∀ e' ∈ e.plain, e'.Allowed l) :
    ∃ b', b.receive e.message = some b' ∧ Tracks c chunkId items (e.plain.foldl Event.apply l)
      ((e.plain.foldl Event.apply l).data items + (extra + e.direct)) b' := by
  cases e with
  | object e =>
    obtain ⟨b', hb', h'⟩ := h.step hc hwf (hallowed e (List.mem_singleton_self e))
    refine ⟨b', hb', ?_⟩
    rw [ClusterEvent.direct, add_zero]
    exact h'
  | updateChunk x v delta => exact h.updateChunk hc hwf.1 hwf.2

/-- A run in which every message about an object may come at its time. -/
theorem receiveAll (h : Tracks c chunkId items l (l.data items + extra) b)
    (hc : Catalogued c items) {es : List (ClusterEvent cfg)} (hwf : ∀ e ∈ es, e.WellFormed c items)
    (hallowed : ∀ as e bs, es = as ++ .object e :: bs →
      e.Allowed ((as.flatMap ClusterEvent.plain).foldl Event.apply l)) :
    ∃ b', tryRun ParityChunkBuffer.receive b (es.map ClusterEvent.message) = some b' ∧
      Tracks c chunkId items ((es.flatMap ClusterEvent.plain).foldl Event.apply l)
        (((es.flatMap ClusterEvent.plain).foldl Event.apply l).data items +
          (extra + (es.map ClusterEvent.direct).sum)) b' := by
  induction es generalizing l extra b with
  | nil =>
    refine ⟨b, rfl, ?_⟩
    rw [List.map_nil, List.sum_nil, add_zero]
    exact h
  | cons e es ih =>
    have hfirst : ∀ e' ∈ e.plain, e'.Allowed l := by
      intro e' he'
      cases e with
      | object e =>
        rw [List.mem_singleton.mp he']
        exact hallowed [] e es rfl
      | updateChunk x v delta => cases he'
    obtain ⟨b₁, hb₁, h₁⟩ := h.receive hc (hwf e List.mem_cons_self) hfirst
    obtain ⟨b₂, hb₂, h₂⟩ := ih h₁ (fun e' he' => hwf e' (List.mem_cons_of_mem _ he'))
      fun as e' bs heq => by
        have hrest := hallowed (e :: as) e' bs (by rw [heq]; rfl)
        rwa [List.flatMap_cons, List.foldl_append] at hrest
    refine ⟨b₂, ?_, ?_⟩
    · rw [List.map_cons, tryRun_cons, hb₁]
      exact hb₂
    · rw [List.flatMap_cons, List.foldl_append, List.map_cons, List.sum_cons, ← add_assoc extra]
      exact h₂

end Tracks

/-! ## The data chunks -/

namespace OpenChunk.Inv

variable {c : Coding cfg} {s : OpenChunk cfg} {es : List (Event cfg)}

/-- What an object is changed to in its chunk. -/
theorem revised_apply (h : Inv c s es) {x : Item cfg} (hx : x ∈ s.items) {i : ℕ}
    (h1 : x.offset ≤ i) (h2 : i < x.offset + x.object.size) :
    revised s.items es i = (x.placed + (es.map (Event.revisionOf x)).sum) i := by
  have hrest : ((s.items.erase x).map
      fun y => y.placed + (es.map (Event.revisionOf y)).sum).sum i = 0 := by
    refine List.sum_induction (fun m : Memory => m i = 0) (fun a b ha hb => ?_) rfl ?_
    · rw [Memory.add_apply, ha, hb, UInt8.xor_zero]
    · intro m hm
      obtain ⟨y, hy, rfl⟩ := List.mem_map.mp hm
      obtain ⟨hne, hy⟩ := h.nodup_items.mem_erase_iff.mp hy
      have hout : i < y.offset ∨ y.offset + y.object.size ≤ i := by
        have hapart := h.apart hx hy hne
        omega
      have hpay := y.payloadOffset_add
      have hsum : (es.map (Event.revisionOf y)).sum i = 0 := by
        refine List.sum_induction (fun m : Memory => m i = 0) (fun a b ha hb => ?_) rfl ?_
        · rw [Memory.add_apply, ha, hb, UInt8.xor_zero]
        · intro m hm
          obtain ⟨e, he, rfl⟩ := List.mem_map.mp hm
          cases e with
          | set z => rfl
          | sealChunk request zs => rfl
          | update z v delta =>
            have hwf := (h.wellFormed _ he).2
            rw [Event.revisionOf]
            split_ifs with heq
            · subst heq
              exact Memory.place_apply_out (by unfold Item.payloadOffset at hpay ⊢; omega)
            · rfl
      rw [Memory.add_apply, y.supportedOn_placed i hout, hsum, UInt8.xor_zero]
  rw [revised, ((List.perm_cons_erase hx).map _).sum_eq, List.map_cons, List.sum_cons,
    Memory.add_apply, hrest, UInt8.xor_zero]

end OpenChunk.Inv

/-- A change of an object in a sealed chunk. -/
structure ChunkUpdate (cfg : GlobalConfig) where
  item : Item cfg
  valueUpdateOffset : ℕ
  delta : List UInt8

namespace ChunkUpdate

/-- What is sent of the change. -/
def event (u : ChunkUpdate cfg) : ClusterEvent cfg :=
  .updateChunk u.item u.valueUpdateOffset u.delta

/-- What would have been sent before the chunk was sealed. -/
def asUpdate (u : ChunkUpdate cfg) : Event cfg := .update u.item u.valueUpdateOffset u.delta

/-- The change of the chunk. -/
def revision (u : ChunkUpdate cfg) : Memory := u.item.revision u.valueUpdateOffset u.delta

end ChunkUpdate

namespace ClusterChunk

/-- The chunk holds its objects with all changes, and these have been sent. -/
inductive Follows (c : Coding cfg) : ClusterChunk cfg → List (ClusterEvent cfg) → Prop
  | filling {chunk : OpenChunk cfg} {es : List (Event cfg)} (h : OpenChunk.Inv c chunk es) :
    Follows c ⟨chunk, false, []⟩ (es.map .object)
  | sealed {chunk : OpenChunk cfg} {es : List (Event cfg)} {request : SealRequest}
    {us : List (ChunkUpdate cfg)} (hsent : chunk.sent = es.map Event.message)
    (h : OpenChunk.Inv c
      { chunk with sent := (es ++ us.map ChunkUpdate.asUpdate).map Event.message }
      (es ++ us.map ChunkUpdate.asUpdate))
    (hseal : (Event.sealChunk request chunk.items).WellFormed c chunk.items) :
    Follows c ⟨chunk, true, .object (.sealChunk request) :: us.map fun u => u.event.message⟩
      (es.map .object ++ .object (.sealChunk request chunk.items) :: us.map ChunkUpdate.event)

namespace Follows

variable {c : Coding cfg} {d : ClusterChunk cfg} {es : List (ClusterEvent cfg)}

theorem start (c : Coding cfg) (stripeId chunkId : ℕ) : Follows c (.init cfg stripeId chunkId) [] :=
  .filling (OpenChunk.Inv.init c stripeId chunkId)

theorem plain_objects (es : List (Event cfg)) :
    (es.map ClusterEvent.object).flatMap ClusterEvent.plain = es := by
  rw [List.flatMap_map]
  exact List.flatMap_singleton' es

theorem plain_updates (us : List (ChunkUpdate cfg)) :
    (us.map ChunkUpdate.event).flatMap ClusterEvent.plain = [] := by
  rw [List.flatMap_map]
  exact List.flatMap_eq_nil_iff.mpr fun u _ => rfl

theorem messages_eq (h : d.Follows c es) : d.messages = es.map ClusterEvent.message := by
  cases h with
  | filling h =>
    rw [messages, h.sent, List.append_nil, List.map_map, List.map_map]
    rfl
  | sealed hsent h hseal =>
    rw [messages, hsent, List.map_append, List.map_cons, List.map_map, List.map_map, List.map_map]
    rfl

theorem arrivals_eq (h : d.Follows c es) :
    (es.flatMap ClusterEvent.plain).flatMap Event.arrivals = d.chunk.items := by
  cases h with
  | filling h => rw [plain_objects, h.arrivals]
  | @sealed chunk es request us hsent h hseal =>
    have hnone : (us.map ChunkUpdate.asUpdate).flatMap Event.arrivals = [] := by
      rw [List.flatMap_map]
      exact List.flatMap_eq_nil_iff.mpr fun u _ => rfl
    have harrivals := h.arrivals
    rw [List.flatMap_append, hnone, List.append_nil] at harrivals
    rw [List.flatMap_append, List.flatMap_cons, plain_objects, plain_updates, List.append_nil,
      List.flatMap_append, harrivals]
    exact List.append_nil _

theorem listings_eq (h : d.Follows c es) :
    (es.flatMap ClusterEvent.plain).flatMap Event.listings =
      if d.isSealed then d.chunk.items else [] := by
  cases h with
  | filling h =>
    rw [plain_objects, h.listings]
    rfl
  | @sealed chunk es request us hsent h hseal =>
    have hlistings := h.listings
    rw [List.flatMap_append, List.append_eq_nil_iff] at hlistings
    rw [List.flatMap_append, List.flatMap_cons, plain_objects, plain_updates, List.append_nil,
      List.flatMap_append, hlistings.1]
    exact List.append_nil _

theorem wellFormed (h : d.Follows c es) : ∀ e ∈ es, e.WellFormed c d.chunk.items := by
  cases h with
  | filling h =>
    intro e he
    obtain ⟨e', he', rfl⟩ := List.mem_map.mp he
    exact h.wellFormed e' he'
  | sealed hsent h hseal =>
    intro e he
    rcases List.mem_append.mp he with he | he
    · obtain ⟨e', he', rfl⟩ := List.mem_map.mp he
      exact h.wellFormed e' (List.mem_append_left _ he')
    · rcases List.mem_cons.mp he with rfl | he
      · exact hseal
      · obtain ⟨u, hu, rfl⟩ := List.mem_map.mp he
        have hwf := h.wellFormed u.asUpdate (List.mem_append_right _ (List.mem_map_of_mem hu))
        exact hwf

theorem exists_inv (h : d.Follows c es) :
    ∃ sent es', OpenChunk.Inv c { d.chunk with sent } es' := by
  cases h with
  | filling h => exact ⟨_, _, h⟩
  | sealed hsent h hseal => exact ⟨_, _, h⟩

theorem ids_of_mem_items {x : Item cfg} (hx : x ∈ d.chunk.items) :
    d.ids = (x.stripeId, x.chunkId) := by
  obtain ⟨e, -, rfl⟩ := List.mem_map.mp hx
  rfl

/-- An object is updated by its chunk only. -/
theorem revisions_eq_zero (h : d.Follows c es) {x : Item cfg} (hx : x ∉ d.chunk.items) :
    ((es.flatMap ClusterEvent.plain).map (Event.revisionOf x)).sum = 0 := by
  refine List.sum_eq_zero fun m hm => ?_
  obtain ⟨e, he, rfl⟩ := List.mem_map.mp hm
  obtain ⟨ce, hce, hece⟩ := List.mem_flatMap.mp he
  have hwf := h.wellFormed ce hce
  cases ce with
  | updateChunk y v delta => cases hece
  | object e' =>
    rw [List.mem_singleton.mp hece]
    cases e' with
    | set y => rfl
    | sealChunk request ys => rfl
    | update y v delta =>
      have hne : x ≠ y := fun hxy => hx (hxy ▸ hwf.1)
      exact if_neg hne

theorem direct_apply (h : d.Follows c es) {e : ClusterEvent cfg} (he : e ∈ es) (s ci : ℕ) :
    e.direct s ci = if d.ids = (s, ci) then e.delta else 0 := by
  have hwf := h.wellFormed e he
  cases e with
  | object e' => exact (ite_self 0).symm
  | updateChunk y v delta =>
    rw [ids_of_mem_items hwf.1, ClusterEvent.direct, Item.inject_apply]
    by_cases hs : y.stripeId = s
    · subst hs
      simp [Pi.single_apply, eq_comm, ClusterEvent.delta]
    · simp [hs]

end Follows

end ClusterChunk

/-- What a request makes a data server send. -/
inductive ClusterRequest.Sends (d : ClusterChunk cfg) :
    ClusterRequest cfg → List (ClusterEvent cfg) → Prop
  | nothing {r : ClusterRequest cfg} : Sends d r []
  | set {x : Item cfg} : Sends d (.set x.object) [.object (.set x)]
  | update {i v : ℕ} {valueUpdate delta : List UInt8} {e : ChunkHistory.Entry cfg} {x : Item cfg}
    (he : e ∈ d.chunk.findAny i) (hx : x ∈ d.chunk.items) (hobject : x.object = e.object) :
    Sends d (.update i v valueUpdate) [.object (.update x v delta)]
  | updateChunk {r : ClusterRequest cfg} {u : ChunkUpdate cfg} : Sends d r [u.event]

/-- A key that is not empty, or an update inside the value of its object. -/
def ClusterRequest.Proper (d : ClusterChunk cfg) : ClusterRequest cfg → Prop
  | set o => o.key ≠ []
  | update i valueUpdateOffset valueUpdate => ∀ e ∈ d.chunk.findAny i,
      valueUpdateOffset + valueUpdate.length ≤ e.object.payload.length

namespace ClusterChunk.Follows

variable {c : Coding cfg} {d : ClusterChunk cfg} {es : List (ClusterEvent cfg)}

theorem mem_of_findAny {s : OpenChunk cfg} {i : ℕ} {e : ChunkHistory.Entry cfg}
    (h : e ∈ s.findAny i) : e ∈ s.entries :=
  List.mem_of_getElem? (Option.filter_eq_some_iff.mp h).1

/-- A change of a sealed chunk is the one that would be sent before. -/
theorem updateSealed_eq {s : OpenChunk cfg} {sent : List Message} {es : List (Event cfg)}
    (h : OpenChunk.Inv c { s with sent } es) {e : ChunkHistory.Entry cfg} (he : e ∈ s.entries)
    {v : ℕ} {valueUpdate : List UInt8} (hv : v + valueUpdate.length ≤ e.object.payload.length)
    (later : List ClusterMessage) : ∃ u : ChunkUpdate cfg,
      OpenChunk.Inv c { s with
        data := (s.updateEntry e v valueUpdate).data
        sent := (es ++ [u.asUpdate]).map Event.message } (es ++ [u.asUpdate]) ∧
      (ClusterChunk.mk s true later).updateSealed e v valueUpdate =
        ⟨{ s with data := (s.updateEntry e v valueUpdate).data }, true,
          later ++ [u.event.message]⟩ := by
  obtain ⟨delta, hinv⟩ := h.update he hv
  set x : Item cfg := ⟨s.stripeId, s.chunkId, e.offset, e.object⟩
  have hx : x ∈ s.items := List.mem_map_of_mem he
  have hlen : v ≤ x.object.payload.length := (Nat.le_add_right _ _).trans hv
  have hsent := hinv.sent
  rw [List.map_append, ← h.sent] at hsent
  have hheader := Message.update.inj (List.singleton_inj.mp (List.append_cancel_left hsent))
  have hoff := (congrArg ChunkKeyValueUpdateHeader.chunkUpdateOffset hheader).trans
    (x.chunkUpdateOffset_eq hlen ((h.end_le hx).trans h.fits))
  have hdelta := congrArg ChunkKeyValueUpdateHeader.valueUpdate hheader
  refine ⟨⟨x, v, delta⟩, ?_, ?_⟩
  · change OpenChunk.Inv c
      { s with
        data := (s.updateEntry e v valueUpdate).data
        sent := (es ++ [Event.update x v delta]).map Event.message } (es ++ [.update x v delta])
    rw [← hinv.sent]
    exact hinv
  · exact congrArg₂ (fun offset bytes => ClusterChunk.mk
      { s with data := (s.updateEntry e v valueUpdate).data } true
      (later ++ [.updateChunk x.stripeId x.chunkId offset bytes])) hoff hdelta

/-- A request that may come. -/
theorem handle (h : d.Follows c es) {r : ClusterRequest cfg} (hr : r.Proper d) :
    ∃ new, r.Sends d new ∧ (d.handle r).Follows c (es ++ new) := by
  have hsame : ∃ new, r.Sends d new ∧ d.Follows c (es ++ new) :=
    ⟨[], .nothing, by rwa [List.append_nil]⟩
  cases h with
  | @filling chunk es h =>
    cases r with
    | set o =>
      by_cases hfit : dataSize cfg chunk.data + o.size ≤ cfg.chunkSize
      · have hfit' := hfit
        rw [h.dataSize_eq] at hfit'
        have hset := Follows.filling (h.set hr hfit')
        rw [List.map_append] at hset
        refine ⟨_, ?_, hset⟩
        exact .set (x := ⟨chunk.stripeId, chunk.chunkId, (layout chunk.objects).length, o⟩)
      · have hstep : chunk.step (.set o) = chunk := by
          rw [OpenChunk.step, OpenChunk.set, if_neg hfit]
        rw [ClusterChunk.handle, if_neg Bool.false_ne_true, hstep]
        exact hsame
    | update i v valueUpdate =>
      rw [ClusterChunk.handle, if_neg Bool.false_ne_true]
      cases hfind : chunk.findAny i with
      | none =>
        have hstep : chunk.step (.update i v valueUpdate) = chunk := by
          rw [OpenChunk.step, hfind]
        rw [hstep]
        exact hsame
      | some e =>
        have hstep : chunk.step (.update i v valueUpdate) = chunk.updateEntry e v valueUpdate := by
          rw [OpenChunk.step, hfind]
        obtain ⟨delta, hinv⟩ := h.update (mem_of_findAny hfind) (hr e hfind)
        have hupdate := Follows.filling hinv
        rw [List.map_append] at hupdate
        rw [hstep]
        exact ⟨_, .update hfind (List.mem_map_of_mem (mem_of_findAny hfind)) rfl, hupdate⟩
  | @sealed chunk es request us hsent h hseal =>
    cases r with
    | set o =>
      rw [ClusterChunk.handle, if_pos rfl]
      exact hsame
    | update i v valueUpdate =>
      rw [ClusterChunk.handle, if_pos rfl]
      cases hfind : chunk.findAny i with
      | none => exact hsame
      | some e =>
        obtain ⟨u, hinv, hupdate⟩ := updateSealed_eq h (mem_of_findAny hfind) (hr e hfind)
          (.object (.sealChunk request) :: us.map fun u => u.event.message)
        refine ⟨[u.event], .updateChunk, ?_⟩
        have hlist : es ++ us.map ChunkUpdate.asUpdate ++ [u.asUpdate] =
            es ++ (us ++ [u]).map ChunkUpdate.asUpdate := by
          rw [List.map_append, List.append_assoc]
          rfl
        rw [hlist] at hinv
        have hnext : Follows c
            ⟨{ chunk with data := (chunk.updateEntry e v valueUpdate).data }, true, _⟩ _ :=
          .sealed hsent hinv hseal
        rw [List.map_append, List.map_append] at hnext
        rw [List.append_assoc]
        change Follows c (ClusterChunk.updateSealed _ e v valueUpdate) _
        rw [hupdate]
        exact hnext

/-- The chunk is sealed. -/
theorem sealChunk (h : d.Follows c es) (hid : d.chunk.chunkId < c.dataChunkCount) (listId : ℕ) :
    ∃ new : List (ClusterEvent cfg), (d.sealChunk listId).Follows c (es ++ new) ∧
      (d.sealChunk listId).chunk = d.chunk ∧
      (new = [] ∨ ∃ request xs, new = [.object (.sealChunk request xs)]) := by
  cases h with
  | @filling chunk es h =>
    obtain ⟨hcount, hrecords⟩ := h.request_eq listId
    have hsame : { chunk with sent := (es ++ []).map Event.message } = chunk := by
      rw [List.append_nil, ← h.sent]
    refine ⟨[.object (.sealChunk (chunk.request listId) chunk.items)], ?_, rfl,
      Or.inr ⟨_, _, rfl⟩⟩
    refine @Follows.sealed cfg c chunk es _ [] h.sent ?_ ⟨hrecords, hcount, hid, fun x hx => ?_,
      h.pairwise_items⟩
    · rw [List.map_nil, hsame, List.append_nil]
      exact h
    · obtain ⟨e, -, rfl⟩ := List.mem_map.mp hx
      exact ⟨hx, rfl, rfl⟩
  | sealed hsent h hseal =>
    refine ⟨[], ?_, rfl, Or.inl rfl⟩
    rw [List.append_nil]
    exact .sealed hsent h hseal

/-! ### What the ledger says of a chunk -/

/-- Changes of objects of the chunk. -/
theorem revised_append_updates {s : OpenChunk cfg} {es' es : List (Event cfg)}
    (h : OpenChunk.Inv c s es') {us : List (ChunkUpdate cfg)} (hus : ∀ u ∈ us, u.item ∈ s.items) :
    OpenChunk.revised s.items (es ++ us.map ChunkUpdate.asUpdate) =
      OpenChunk.revised s.items es + (us.map ChunkUpdate.revision).sum := by
  induction us using List.reverseRecOn with
  | nil =>
    rw [List.map_nil, List.append_nil, List.map_nil, List.sum_nil, add_zero]
  | append_singleton us u ih =>
    have hu : (s.items.map fun y => u.asUpdate.revisionOf y).sum = u.revision :=
      h.revisionsOf_update (hus u (List.mem_append_right _ (List.mem_singleton_self u)))
    rw [List.map_append, List.map_singleton, ← List.append_assoc, OpenChunk.revised_concat_event,
      ih fun u' hu' => hus u' (List.mem_append_left _ hu'), hu, List.map_append, List.sum_append,
      List.map_singleton, List.sum_singleton, add_assoc]

theorem delta_objects (es : List (Event cfg)) :
    ((es.map ClusterEvent.object).map ClusterEvent.delta).sum = 0 := by
  refine List.sum_eq_zero fun m hm => ?_
  obtain ⟨e, he, rfl⟩ := List.mem_map.mp hm
  obtain ⟨e', -, rfl⟩ := List.mem_map.mp he
  rfl

/-- The data of the chunk, if all its objects are in the parity as soon as it is sealed. -/
theorem sealedData_apply (h : d.Follows c es) {l : Ledger cfg}
    (hphase : ∀ x ∈ d.chunk.items, (l x).phase = if d.isSealed then .folded else .stored)
    (hdelta : ∀ x ∈ d.chunk.items,
      (l x).delta = ((es.flatMap ClusterEvent.plain).map (Event.revisionOf x)).sum)
    {i : ℕ} (hi : i < cfg.chunkSize) :
    d.sealedData i = ((d.chunk.items.map fun x => (l x).content x).sum +
      (es.map ClusterEvent.delta).sum) i := by
  cases h with
  | @filling chunk es h =>
    have hcontent : (chunk.items.map fun x => (l x).content x).sum = 0 := by
      refine List.sum_eq_zero fun m hm => ?_
      obtain ⟨x, hx, rfl⟩ := List.mem_map.mp hm
      rw [ItemState.content, hphase x hx]
      rfl
    rw [hcontent, delta_objects, add_zero]
    rfl
  | @sealed chunk es request us hsent h hseal =>
    have hus : ∀ u ∈ us, u.item ∈ chunk.items := fun u hu =>
      (h.wellFormed u.asUpdate (List.mem_append_right _ (List.mem_map_of_mem hu))).1
    have hcontent : (chunk.items.map fun x => (l x).content x) =
        chunk.items.map fun x => x.placed + (es.map (Event.revisionOf x)).sum := by
      refine List.map_congr_left fun x hx => ?_
      have hd := hdelta x hx
      rw [List.flatMap_append, List.flatMap_cons, plain_objects, plain_updates, List.append_nil,
        List.map_append, List.sum_append] at hd
      have hlast : ([Event.sealChunk request chunk.items].map (Event.revisionOf x)).sum = 0 :=
        List.sum_singleton
      rw [ItemState.content, hphase x hx, hd]
      exact congrArg (x.placed + ·) ((congrArg (_ + ·) hlast).trans (add_zero _))
    have hdeltas : ((es.map ClusterEvent.object ++
        .object (.sealChunk request chunk.items) :: us.map ChunkUpdate.event).map
          ClusterEvent.delta).sum = (us.map ChunkUpdate.revision).sum := by
      rw [List.map_append, List.sum_append, delta_objects, zero_add, List.map_cons, List.sum_cons,
        List.map_map]
      exact zero_add _
    have hsum : OpenChunk.revised chunk.items (es ++ us.map ChunkUpdate.asUpdate) = _ :=
      revised_append_updates h hus
    rw [hcontent, hdeltas]
    exact (h.content i hi).trans (congrFun hsum i)

/-- The record of an object in a chunk that is not sealed is what the chunk holds of it. -/
theorem holds_record (h : d.Follows c es) (hopen : d.isSealed = false) {e : ChunkHistory.Entry cfg}
    (he : e ∈ d.chunk.entries) {st : ItemState}
    (hdelta : st.delta = ((es.flatMap ClusterEvent.plain).map (Event.revisionOf
      ⟨d.chunk.stripeId, d.chunk.chunkId, e.offset, e.object⟩)).sum) :
    (st.record ⟨d.chunk.stripeId, d.chunk.chunkId, e.offset, e.object⟩).Holds 0
      (d.chunk.data.read e.offset e.object.size) := by
  cases h with
  | sealed hsent h hseal => cases hopen
  | @filling chunk es h =>
    set x : Item cfg := ⟨chunk.stripeId, chunk.chunkId, e.offset, e.object⟩
    have hx : x ∈ chunk.items := List.mem_map_of_mem he
    have hend := (h.end_le hx).trans h.fits
    rw [plain_objects] at hdelta
    refine Memory.holds_iff.mpr fun j hj => ?_
    rw [Memory.length_read] at hj
    have hlt : e.offset + j < cfg.chunkSize := by
      change e.offset + e.object.size ≤ cfg.chunkSize at hend
      omega
    have happly := h.revised_apply hx (i := e.offset + j) (Nat.le_add_right _ _)
      (Nat.add_lt_add_left hj _)
    rw [Memory.getElem_read, h.content _ hlt, happly, ← hdelta, ItemState.record, Nat.zero_add,
      Memory.window, if_pos ⟨Nat.zero_le j, by rwa [Nat.zero_add]⟩, Nat.sub_zero, Nat.add_comm j]

end ClusterChunk.Follows

end MemEC.Server
