import MemEC.Server.ParityRun

/-!
# A data chunk before it is sealed

Until a data chunk is sealed, its server sends an UPDATE or a DELETE to the
parity servers for every object that it changes, and the SEAL_CHUNK request
last. As long as no object is deleted, the chunk holds its objects with their
updates, and these are what the messages say.
-/

namespace MemEC.Common

open MemEC.Lib KeyValue

variable {cfg : GlobalConfig}

/-- The object with another payload of the same length. -/
def Object.withPayload (o : Object cfg) (payload : List UInt8)
    (h : payload.length = o.payload.length) : Object cfg :=
  { o with payload, length_payload := h.trans o.length_payload }

/-- Where the headers and the keys of objects stand, there are objects that differ from these in
their payloads only. -/
theorem exists_layout_of_heads {m : Memory} {off : ℕ} {objs : List (Object cfg)}
    (h : ∀ p ∈ placed off objs, m.Holds p.1 (p.2.header ++ p.2.keyBytes)) :
    ∃ cur : List (Object cfg), m.Holds off (layout cur) ∧
      (layout cur).length = (layout objs).length ∧ cur.map Object.key = objs.map Object.key ∧
      (placed off cur).map (fun p => (p.1, p.2.mapKey)) =
        (placed off objs).map fun p => (p.1, p.2.mapKey) := by
  induction objs generalizing off with
  | nil => exact ⟨[], Memory.holds_nil _ _, rfl, rfl, rfl⟩
  | cons o objs ih =>
    obtain ⟨cur, hholds, hlen, hkeys, hplaced⟩ := ih fun p hp => h p (List.mem_cons_of_mem _ hp)
    set payload := m.read (off + (o.header ++ o.keyBytes).length) o.payload.length
    set o' := o.withPayload payload (Memory.length_read _ _ _)
    have ho : m.Holds off o'.bytes :=
      Memory.holds_append.mpr ⟨h (off, o) List.mem_cons_self, Memory.holds_read _ _ _⟩
    have hsize : o'.size = o.size := by
      rw [o'.size_eq, o.size_eq]
      exact congrArg _ (Memory.length_read _ _ _)
    have hbytes : o'.bytes.length = o.size := hsize
    refine ⟨o' :: cur, ?_, ?_, ?_, ?_⟩
    · rw [layout_cons, Memory.holds_append, hbytes]
      exact ⟨ho, hholds⟩
    · rw [length_layout_cons, length_layout_cons, hsize, hlen]
    · rw [List.map_cons, List.map_cons, hkeys]
      rfl
    · rw [placed, placed, hsize, List.map_cons, List.map_cons, hplaced]
      rfl


end MemEC.Common

namespace MemEC.Server

open MemEC.Lib MemEC.Common KeyValue ChunkUtil

variable {cfg : GlobalConfig}

/-! ## The data server -/

/-- What a data server is asked for. An object is named by its place in the order in which the
objects of the chunk were stored. -/
inductive DataRequest (cfg : GlobalConfig)
  | set (o : Object cfg)
  | update (i valueUpdateOffset : ℕ) (valueUpdate : List UInt8)
  /-- The buffer is the one that the delta is computed in. -/
  | delete (i : ℕ) (buffer : Memory)

/-- A data chunk that is not sealed, the objects that were stored in it, and what a parity server
is sent. -/
structure OpenChunk (cfg : GlobalConfig) where
  stripeId : ℕ
  chunkId : ℕ
  data : Memory
  entries : List (ChunkHistory.Entry cfg)
  sent : List Message

namespace OpenChunk

variable (s : OpenChunk cfg)

/-- A chunk in which nothing is stored. -/
def init (cfg : GlobalConfig) (stripeId chunkId : ℕ) : OpenChunk cfg :=
  ⟨stripeId, chunkId, 0, [], []⟩

/-- `Map::findObject` or `Map::findLargeObject`: the object, if it is in the key map. -/
def findAny (i : ℕ) : Option (ChunkHistory.Entry cfg) := s.entries[i]?.filter fun e => e.live

/-- `Map::findObject`. -/
def findObject (i : ℕ) : Option (ChunkHistory.Entry cfg) :=
  (s.findAny i).filter fun e => !e.object.isLarge

/-- `DataChunkBuffer::set`, and the SET that the client sends to the parity servers. An object that
does not fit is stored in another chunk. -/
def set (o : Object cfg) : OpenChunk cfg :=
  if dataSize cfg s.data + o.size ≤ cfg.chunkSize then
    let (data, offset) := store cfg s.data o
    { s with
      data
      entries := s.entries ++ [⟨o, offset, true⟩]
      sent := s.sent ++ [.set o.bytes s.chunkId] }
  else s

/-- `ServerWorker::handleUpdateRequest` of the clients for an object that was found, and the UPDATE
that `sendModifyChunkRequest` sends. -/
def updateEntry (e : ChunkHistory.Entry cfg) (valueUpdateOffset : ℕ) (valueUpdate : List UInt8) :
    OpenChunk cfg :=
  let kv := deserialize cfg s.data e.offset
  let isLarge := LargeObjectUtil.isLarge cfg kv.keySize kv.valueSize
  let offset := u32 (e.offset + 4 + kv.keySize + valueUpdateOffset + if isLarge then 3 else 0)
  let (delta, data) := computeDelta s.data valueUpdate offset valueUpdate.length true
  { s with
    data
    sent := s.sent ++ [.update
      { stripeId := s.stripeId
        chunkId := s.chunkId
        key := .ofMemory (.place 0 e.object.mapKey.data) 0 kv.keySize isLarge
        valueUpdateOffset
        chunkUpdateOffset := offset
        valueUpdate := delta.read 0 valueUpdate.length }] }

/-- `ServerWorker::handleDeleteRequest` of the clients for the object `i`, and the DELETE that
`sendModifyChunkRequest` sends. -/
def deleteEntry (i : ℕ) (e : ChunkHistory.Entry cfg) (buffer : Memory) : OpenChunk cfg :=
  -- The `keyMetadata` with the offset of the object is not visible here.
  { s with
    data := (deleteObject cfg s.data 0 (some buffer)).1
    entries := s.entries.set i { e with live := false }
    sent := s.sent ++ [.delete e.object.key] }

/-- One request. For an object that is not found nothing is sent. -/
def step : DataRequest cfg → OpenChunk cfg
  | .set o => s.set o
  | .update i valueUpdateOffset valueUpdate =>
    match s.findAny i with
    | none => s
    | some e => s.updateEntry e valueUpdateOffset valueUpdate
  | .delete i buffer =>
    match s.findObject i with
    | none => s
    | some e => s.deleteEntry i e buffer

/-- The objects that were stored. -/
def objects : List (Object cfg) := s.entries.map ChunkHistory.Entry.object

/-- The objects at their places. -/
def items : List (Item cfg) := s.entries.map fun e => ⟨s.stripeId, s.chunkId, e.offset, e.object⟩

/-- The SEAL_CHUNK request for the chunk. -/
def request (listId : ℕ) : SealRequest := reqSealChunk cfg ⟨listId, s.stripeId, s.chunkId, s.data⟩ 0

end OpenChunk

/-- A SET brings a key that is not empty, an UPDATE lies inside the stored value of its object, and
no object is deleted. -/
def DataRequest.Proper (s : OpenChunk cfg) : DataRequest cfg → Prop
  | set o => o.key ≠ []
  | update i valueUpdateOffset valueUpdate => ∀ e, s.findAny i = some e →
      valueUpdateOffset + valueUpdate.length ≤ e.object.payload.length
  | delete i _ => s.findObject i = none

theorem Event.WellFormed.mono {c : Coding cfg} {items items' : List (Item cfg)} {e : Event cfg}
    (h : e.WellFormed c items) (hsub : ∀ x ∈ items, x ∈ items') : e.WellFormed c items' := by
  cases e with
  | set x => exact hsub x h
  | sealChunk request xs =>
    obtain ⟨hrecords, hcount, hcid, hxs, horder⟩ := h
    exact ⟨hrecords, hcount, hcid, fun x hx => ⟨hsub x (hxs x hx).1, (hxs x hx).2⟩, horder⟩
  | update x offset valueUpdate => exact ⟨hsub x h.1, h.2⟩

namespace OpenChunk

variable {c : Coding cfg} {s : OpenChunk cfg} {es : List (Event cfg)}

/-- Objects at their places, with the updates that `es` has of them. -/
def revised (items : List (Item cfg)) (es : List (Event cfg)) : Memory :=
  (items.map fun x => x.placed + (es.map (Event.revisionOf x)).sum).sum

theorem revised_concat_event (items : List (Item cfg)) (es : List (Event cfg)) (e : Event cfg) :
    revised items (es ++ [e]) = revised items es + (items.map fun x => e.revisionOf x).sum := by
  rw [revised, revised, ← List.sum_map_add]
  refine congrArg List.sum (List.map_congr_left fun x _ => ?_)
  rw [List.map_append, List.sum_append, List.map_singleton, List.sum_singleton, add_assoc]

theorem revised_concat_item (items : List (Item cfg)) (es : List (Event cfg)) (x : Item cfg) :
    revised (items ++ [x]) es =
      revised items es + (x.placed + (es.map (Event.revisionOf x)).sum) := by
  rw [revised, List.map_append, List.sum_append, List.map_singleton, List.sum_singleton]
  rfl

/-- The chunk holds the objects with the updates that `es` has of them, and `es` is what was
sent. -/
structure Inv (c : Coding cfg) (s : OpenChunk cfg) (es : List (Event cfg)) : Prop where
  live : ∀ e ∈ s.entries, e.live = true
  keys : ∀ o ∈ s.objects, o.key ≠ []
  places : s.entries.map (fun e => (e.offset, e.object)) = placed 0 s.objects
  fits : (layout s.objects).length ≤ cfg.chunkSize
  heads : ∀ x ∈ s.items, s.data.Holds x.offset (x.object.header ++ x.object.keyBytes)
  zero : ∀ i, (layout s.objects).length ≤ i → i < cfg.chunkSize → s.data i = 0
  content : ∀ i < cfg.chunkSize, s.data i = revised s.items es i
  sent : s.sent = es.map Event.message
  arrivals : es.flatMap Event.arrivals = s.items
  listings : es.flatMap Event.listings = []
  wellFormed : ∀ e ∈ es, e.WellFormed c s.items

theorem Inv.init (c : Coding cfg) (stripeId chunkId : ℕ) :
    Inv c (init cfg stripeId chunkId) [] where
  live := by simp [OpenChunk.init]
  keys := by simp [OpenChunk.init, objects]
  places := rfl
  fits := Nat.zero_le _
  heads := by simp [OpenChunk.init, items]
  zero := fun _ _ _ => rfl
  content := fun _ _ => rfl
  sent := rfl
  arrivals := rfl
  listings := rfl
  wellFormed := by simp

namespace Inv

variable (h : Inv c s es)
include h

theorem items_eq : s.items =
    (placed 0 s.objects).map fun p => ⟨s.stripeId, s.chunkId, p.1, p.2⟩ := by
  rw [← h.places, List.map_map]
  rfl

theorem pairwise_items : s.items.Pairwise fun x y => x.offset + x.object.size ≤ y.offset := by
  rw [h.items_eq]
  exact List.pairwise_map.mpr (pairwise_placed 0 _)

theorem nodup_items : s.items.Nodup := by
  refine h.pairwise_items.imp fun {x y} hxy heq => ?_
  have hsize := x.object.le_size
  rw [heq] at hxy hsize
  omega

theorem end_le {x : Item cfg} (hx : x ∈ s.items) :
    x.offset + x.object.size ≤ (layout s.objects).length := by
  rw [h.items_eq] at hx
  obtain ⟨p, hp, rfl⟩ := List.mem_map.mp hx
  have hb := (mem_placed_bounds hp).2
  rwa [Nat.zero_add] at hb

/-- Two objects of the chunk do not overlap. -/
theorem apart {x y : Item cfg} (hx : x ∈ s.items) (hy : y ∈ s.items) (hne : y ≠ x) :
    y.offset + y.object.size ≤ x.offset ∨ x.offset + x.object.size ≤ y.offset := by
  have hsymm : Std.Symm fun x y : Item cfg =>
      x.offset + x.object.size ≤ y.offset ∨ y.offset + y.object.size ≤ x.offset :=
    ⟨fun _ _ hxy => hxy.symm⟩
  have hall : s.items.Pairwise fun x y =>
      x.offset + x.object.size ≤ y.offset ∨ y.offset + y.object.size ≤ x.offset :=
    h.pairwise_items.imp Or.inl
  exact hall.forall hy hx hne

/-- The objects as they stand in the chunk. -/
theorem exists_layout : ∃ cur : List (Object cfg), s.data.Holds 0 (layout cur) ∧
    (layout cur).length = (layout s.objects).length ∧
      cur.map Object.key = s.objects.map Object.key ∧ (placed 0 cur).map (fun p => (p.1, p.2.mapKey)) =
        (placed 0 s.objects).map fun p => (p.1, p.2.mapKey) := by
  refine exists_layout_of_heads fun p hp => ?_
  refine h.heads ⟨s.stripeId, s.chunkId, p.1, p.2⟩ ?_
  rw [h.items_eq]
  exact List.mem_map_of_mem hp

theorem keys_of_map_key {cur : List (Object cfg)} (hkeys : cur.map Object.key =
    s.objects.map Object.key) : ∀ o ∈ cur, o.key ≠ [] := by
  intro o ho
  have hmem : o.key ∈ s.objects.map Object.key := hkeys ▸ List.mem_map_of_mem ho
  obtain ⟨o', ho', hkey⟩ := List.mem_map.mp hmem
  rw [← hkey]
  exact h.keys o' ho'

theorem dataSize_eq : dataSize cfg s.data = (layout s.objects).length := by
  obtain ⟨cur, hholds, hlen, hkeys, -⟩ := h.exists_layout
  have hvisible : ∀ o ∈ cur, o.Visible := fun o ho => Or.inl (h.keys_of_map_key hkeys o ho)
  rw [← hlen]
  refine dataSize_layout hholds hvisible (hlen ▸ h.fits) ?_
  rw [hlen]
  exact fun hlt => scanEnds_of_zero (fun i h1 h2 => h.zero i h1 (by omega)) hlt

/-- The SEAL_CHUNK request lists the objects as they were stored. -/
theorem request_eq (listId : ℕ) : (s.request listId).count = s.items.length ∧
    (s.request listId).records = s.items.map Item.sealRecord := by
  obtain ⟨cur, hholds, hlen, hkeys, hplaced⟩ := h.exists_layout
  have hends : NextEnds cfg s.data (layout cur).length := by
    rw [hlen]
    exact fun hlt => h.zero _ le_rfl (by omega)
  obtain ⟨hcount, hrecords⟩ := reqSealChunk_of_layout ⟨listId, s.stripeId, s.chunkId, s.data⟩
    hholds (h.keys_of_map_key hkeys) (hlen ▸ h.fits) hends
  constructor
  · have hsame := congrArg List.length hkeys
    refine hcount.trans ?_
    simpa [objects, items] using hsame
  · have hmap := congrArg (List.map fun q : ℕ × Key => (⟨q.2, q.1⟩ : SealRecord)) hplaced
    rw [List.map_map, List.map_map] at hmap
    rw [h.items_eq, List.map_map]
    exact hrecords.trans hmap

/-- What is not in the chunk has not been updated. -/
theorem revisions_eq_zero {x : Item cfg} (hx : x ∉ s.items) :
    (es.map (Event.revisionOf x)).sum = 0 := by
  refine List.sum_eq_zero fun m hm => ?_
  obtain ⟨e, he, rfl⟩ := List.mem_map.mp hm
  cases e with
  | set y => rfl
  | sealChunk request ys => rfl
  | update y offset valueUpdate =>
    have hy : y ∈ s.items := (h.wellFormed _ he).1
    have hne : x ≠ y := fun hxy => hx (hxy ▸ hy)
    exact if_neg hne

/-- An update changes one object. -/
theorem revisionsOf_update {x : Item cfg} (hx : x ∈ s.items) {v : ℕ} {delta : List UInt8} :
    (s.items.map fun y => (Event.update x v delta).revisionOf y).sum = x.revision v delta := by
  have hrest : ((s.items.erase x).map fun y => (Event.update x v delta).revisionOf y).sum = 0 := by
    refine List.sum_eq_zero fun m hm => ?_
    obtain ⟨y, hy, rfl⟩ := List.mem_map.mp hm
    exact if_neg (h.nodup_items.mem_erase_iff.mp hy).1
  rw [((List.perm_cons_erase hx).map _).sum_eq, List.map_cons, List.sum_cons, hrest, add_zero]
  exact if_pos rfl

/-- What a SET of an object that fits does. -/
theorem set_eq {o : Object cfg} (hfit : (layout s.objects).length + o.size ≤ cfg.chunkSize) :
    s.set o = { s with
      data := s.data.write (layout s.objects).length o.bytes
      entries := s.entries ++ [⟨o, (layout s.objects).length, true⟩]
      sent := s.sent ++ [.set o.bytes s.chunkId] } := by
  rw [OpenChunk.set, h.dataSize_eq, if_pos hfit, store_eq, h.dataSize_eq]

/-- The place of a new object is free. -/
theorem end_not_mem (o : Object cfg) :
    (⟨s.stripeId, s.chunkId, (layout s.objects).length, o⟩ : Item cfg) ∉ s.items := by
  intro hmem
  have hend := h.end_le hmem
  have hpos := o.le_size
  simp only at hend
  omega

/-- A SET of an object that fits. -/
theorem set {o : Object cfg} (hk : o.key ≠ [])
    (hfit : (layout s.objects).length + o.size ≤ cfg.chunkSize) :
    Inv c (s.set o)
      (es ++ [.set ⟨s.stripeId, s.chunkId, (layout s.objects).length, o⟩]) := by
  set x : Item cfg := ⟨s.stripeId, s.chunkId, (layout s.objects).length, o⟩
  have hset := h.set_eq hfit
  have hobjects : (s.set o).objects = s.objects ++ [o] := by
    rw [hset]
    exact List.map_append
  have hitems : (s.set o).items = s.items ++ [x] := by
    rw [hset]
    exact List.map_append
  have hdata : (s.set o).data = s.data.write x.offset o.bytes := by rw [hset]
  have hlen : (layout (s.set o).objects).length = x.offset + o.size := by
    rw [hobjects]
    exact length_layout_concat s.objects o
  have hadd : s.data.write x.offset o.bytes = s.data + x.placed := by
    refine Memory.write_eq_add_place fun i h1 h2 => h.zero i h1 ?_
    have hend : x.offset + o.bytes.length ≤ cfg.chunkSize := hfit
    omega
  have hnone : ((s.items ++ [x]).map fun y => (Event.set x).revisionOf y).sum = 0 := by
    refine List.sum_eq_zero fun m hm => ?_
    obtain ⟨y, -, rfl⟩ := List.mem_map.mp hm
    rfl
  exact {
    live := by
      rw [hset]
      intro e he
      rcases List.mem_append.mp he with he | he
      · exact h.live e he
      · rw [List.mem_singleton.mp he]
    keys := by
      rw [hobjects]
      intro o' ho
      rcases List.mem_append.mp ho with ho | ho
      · exact h.keys o' ho
      · rwa [List.mem_singleton.mp ho]
    places := by
      rw [hobjects, placed_append, ← h.places, hset, Nat.zero_add]
      exact List.map_append
    fits := by
      rw [hlen]
      exact hfit
    heads := by
      rw [hitems, hdata]
      intro y hy
      rcases List.mem_append.mp hy with hy | hy
      · refine (h.heads y hy).write (Or.inl ?_)
        have hend : y.offset + y.object.size ≤ x.offset := h.end_le hy
        have hpay := y.payloadOffset_add
        rw [List.length_append, Object.length_header]
        unfold Item.payloadOffset at hpay
        omega
      · rw [List.mem_singleton.mp hy]
        have hbytes := Memory.holds_write s.data x.offset o.bytes
        rw [Object.bytes, Memory.holds_append] at hbytes
        exact hbytes.1
    zero := by
      intro i hi hlt
      rw [hlen, Object.size] at hi
      rw [hdata, Memory.write_apply_out (Or.inr hi)]
      have hfree : (layout s.objects).length ≤ i := (Nat.le_add_right _ _).trans hi
      exact h.zero i hfree hlt
    content := by
      intro i hi
      rw [hdata, hitems, hadd, revised_concat_event, hnone, add_zero, revised_concat_item,
        h.revisions_eq_zero (h.end_not_mem o), add_zero, Memory.add_apply, Memory.add_apply,
        h.content i hi]
    sent := by
      rw [hset, List.map_append, ← h.sent]
      rfl
    arrivals := by
      rw [hitems, List.flatMap_append, h.arrivals]
      rfl
    listings := by
      rw [List.flatMap_append, h.listings]
      rfl
    wellFormed := by
      rw [hitems]
      intro e he
      rcases List.mem_append.mp he with he | he
      · exact (h.wellFormed e he).mono fun y hy => List.mem_append_left _ hy
      · rw [List.mem_singleton.mp he]
        exact List.mem_append_right _ (List.mem_singleton_self x) }

/-- What is read from the chunk for an UPDATE of a stored object. -/
theorem updateEntry_eq {e : ChunkHistory.Entry cfg} (he : e ∈ s.entries) {v : ℕ}
    (valueUpdate : List UInt8) (hv : v ≤ e.object.payload.length) :
    let x : Item cfg := ⟨s.stripeId, s.chunkId, e.offset, e.object⟩
    let delta := (computeDelta s.data valueUpdate (x.payloadOffset + v) valueUpdate.length
      true).1.read 0 valueUpdate.length
    s.updateEntry e v valueUpdate = { s with
      data := s.data + x.revision v delta
      sent := s.sent ++ [.update (x.updateHeader v delta)] } := by
  intro x delta
  have hx : x ∈ s.items := List.mem_map_of_mem he
  have hhead : s.data.Holds e.offset (e.object.header ++ e.object.keyBytes) := h.heads x hx
  have hkv := Object.deserialize_of_header hhead
  have hfits := (h.end_le hx).trans h.fits
  have hlarge : LargeObjectUtil.isLarge cfg e.object.key.length e.object.valueSize =
    e.object.isLarge := rfl
  have hoff : u32 (e.offset + 4 + e.object.key.length + v + if e.object.isLarge then 3 else 0) =
      x.payloadOffset + v := x.chunkUpdateOffset_eq hv hfits
  have hkey : Key.ofMemory (.place 0 e.object.mapKey.data) 0 e.object.key.length
      e.object.isLarge = e.object.mapKey := by
    rw [← e.object.mapKey_size, ← e.object.mapKey_isLarge]
    exact Key.ofMemory_eq (Memory.holds_write 0 0 _)
  have hadd : (computeDelta s.data valueUpdate (x.payloadOffset + v) valueUpdate.length true).2 =
      s.data + x.revision v delta := by
    simp only [computeDelta, if_true, Memory.xorInto_eq_add]
    exact congrArg (s.data + ·) (Memory.copy_eq_write 0 (x.payloadOffset + v) _ 0 _)
  rw [← hadd]
  simp only [updateEntry, hkv, hlarge, hkey]
  rw [hoff, Item.updateHeader, x.chunkUpdateOffset_eq hv hfits]
  rfl

/-- A change of the payload of an object leaves all headers and keys. -/
theorem heads_of_payload {x : Item cfg} (hx : x ∈ s.items) {m : Memory}
    (hm : ∀ i, (i < x.payloadOffset ∨ x.offset + x.object.size ≤ i) → m i = s.data i) :
    ∀ y ∈ s.items, m.Holds y.offset (y.object.header ++ y.object.keyBytes) := by
  intro y hy
  refine (h.heads y hy).congr fun i h1 h2 => hm i ?_
  have hpay := x.payloadOffset_add
  have hpay' := y.payloadOffset_add
  rw [List.length_append, Object.length_header] at h2
  by_cases hyx : y = x
  · rw [hyx] at h2
    exact Or.inl h2
  · unfold Item.payloadOffset at hpay hpay' ⊢
    rcases h.apart hx hy hyx with hbefore | hbehind
    · exact Or.inl (by omega)
    · exact Or.inr (by omega)

/-- An UPDATE inside the stored value of its object. -/
theorem update {e : ChunkHistory.Entry cfg} (he : e ∈ s.entries) {v : ℕ} {valueUpdate : List UInt8}
    (hv : v + valueUpdate.length ≤ e.object.payload.length) :
    ∃ delta, Inv c (s.updateEntry e v valueUpdate)
      (es ++ [.update ⟨s.stripeId, s.chunkId, e.offset, e.object⟩ v delta]) := by
  set x : Item cfg := ⟨s.stripeId, s.chunkId, e.offset, e.object⟩
  set delta := (computeDelta s.data valueUpdate (x.payloadOffset + v) valueUpdate.length
    true).1.read 0 valueUpdate.length
  have hx : x ∈ s.items := List.mem_map_of_mem he
  have hlen : delta.length = valueUpdate.length := Memory.length_read _ _ _
  have hin : v + delta.length ≤ x.object.payload.length := hlen ▸ hv
  have hpay := x.payloadOffset_add
  have hend := h.end_le hx
  have hout : ∀ i, (i < x.payloadOffset ∨ x.offset + x.object.size ≤ i) →
      (s.data + x.revision v delta) i = s.data i := by
    intro i hi
    have hzero : x.revision v delta i = 0 := Memory.place_apply_out (by omega)
    rw [Memory.add_apply, hzero, UInt8.xor_zero]
  have hsum : ∀ i, revised s.items (es ++ [.update x v delta]) i =
      revised s.items es i ^^^ x.revision v delta i := by
    intro i
    rw [revised_concat_event, h.revisionsOf_update hx, Memory.add_apply]
  refine ⟨delta, ?_⟩
  rw [h.updateEntry_eq he valueUpdate (by omega)]
  exact {
    live := h.live
    keys := h.keys
    places := h.places
    fits := h.fits
    heads := h.heads_of_payload hx hout
    zero := fun i hi hlt => (hout i (Or.inr (hend.trans hi))).trans (h.zero i hi hlt)
    content := fun i hi =>
      (congrArg (· ^^^ x.revision v delta i) (h.content i hi)).trans (hsum i).symm
    sent := by
      rw [List.map_append, ← h.sent]
      rfl
    arrivals := by
      rw [List.flatMap_append, h.arrivals]
      exact List.append_nil _
    listings := by
      rw [List.flatMap_append, h.listings]
      rfl
    wellFormed := by
      intro e' he'
      rcases List.mem_append.mp he' with he' | he'
      · exact h.wellFormed e' he'
      · rw [List.mem_singleton.mp he']
        exact ⟨hx, hin⟩ }

/-- A request that does not break the chunk. -/
theorem step {op : DataRequest cfg} (hop : op.Proper s) : ∃ es', Inv c (s.step op) es' := by
  cases op with
  | set o =>
    by_cases hfit : dataSize cfg s.data + o.size ≤ cfg.chunkSize
    · rw [h.dataSize_eq] at hfit
      exact ⟨_, h.set hop hfit⟩
    · rw [OpenChunk.step, OpenChunk.set, if_neg hfit]
      exact ⟨es, h⟩
  | update i valueUpdateOffset valueUpdate =>
    rw [OpenChunk.step]
    cases hfind : s.findAny i with
    | none => exact ⟨es, h⟩
    | some e =>
      have he : e ∈ s.entries :=
        List.mem_of_getElem? (Option.filter_eq_some_iff.mp hfind).1
      obtain ⟨delta, h'⟩ := h.update he (hop e hfind)
      exact ⟨_, h'⟩
  | delete i buffer =>
    have hnone : s.findObject i = none := hop
    rw [OpenChunk.step, hnone]
    exact ⟨es, h⟩

end Inv

end OpenChunk

end MemEC.Server
