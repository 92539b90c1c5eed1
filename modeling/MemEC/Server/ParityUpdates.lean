import MemEC.Server.OpenChunk

/-!
# Updates and deletions in any order

A parity server receives the SETs of the clients and the UPDATEs, DELETEs and
SEAL_CHUNK requests of the data servers in any order.

The parity follows the data chunks as long as no object is deleted and every
UPDATE comes when its object is known, from its SET or from the SEAL_CHUNK
request that lists it. An UPDATE that comes before both is kept as a pending
request, for which the SET is thrown away; and a deletion leaves bytes in the
data chunk that no message tells the parity servers of.
-/

namespace MemEC.Server

open MemEC.Lib MemEC.Common KeyValue ChunkUtil

variable {cfg : GlobalConfig}

/-! ## The stripes -/

/-- The requests for a data chunk until it is sealed. -/
structure ChunkRequests (cfg : GlobalConfig) where
  stripeId : ℕ
  chunkId : ℕ
  requests : List (DataRequest cfg)

namespace ChunkRequests

variable (d : ChunkRequests cfg)

/-- The chunk after the first `n` requests. -/
def after (n : ℕ) : OpenChunk cfg :=
  run OpenChunk.step (.init cfg d.stripeId d.chunkId) (d.requests.take n)

/-- The chunk when it is sealed. -/
def final : OpenChunk cfg := run OpenChunk.step (.init cfg d.stripeId d.chunkId) d.requests

/-- What a parity server is sent. -/
def messages (listId : ℕ) : List Message := d.final.sent ++ [.sealChunk (d.final.request listId)]

/-- Every request is proper when it comes. -/
def Proper : Prop :=
  ∀ n (op : DataRequest cfg), d.requests[n]? = some op → op.Proper (d.after n)

variable {d}

theorem final_ids : d.final.stripeId = d.stripeId ∧ d.final.chunkId = d.chunkId := by
  let Ids : OpenChunk cfg → Prop := fun s => s.stripeId = d.stripeId ∧ s.chunkId = d.chunkId
  have hinit : Ids (.init cfg d.stripeId d.chunkId) := ⟨rfl, rfl⟩
  refine run_invariant hinit (fun s op hs => ?_) d.requests
  cases op with
  | set o =>
    rw [OpenChunk.step, OpenChunk.set]
    split_ifs
    · exact hs
    · exact hs
  | update i valueUpdateOffset valueUpdate =>
    rw [OpenChunk.step]
    cases s.findAny i with
    | none => exact hs
    | some e => exact hs
  | delete i buffer =>
    rw [OpenChunk.step]
    cases s.findObject i with
    | none => exact hs
    | some e => exact hs

theorem ids_of_mem_items {x : Item cfg} (hx : x ∈ d.final.items) :
    (x.stripeId, x.chunkId) = (d.stripeId, d.chunkId) := by
  obtain ⟨e, -, rfl⟩ := List.mem_map.mp hx
  exact Prod.ext final_ids.1 final_ids.2

theorem exists_inv (c : Coding cfg) (h : d.Proper) : ∃ es, OpenChunk.Inv c d.final es := by
  let Holds : OpenChunk cfg → Prop := fun s => ∃ es, OpenChunk.Inv c s es
  have hinit : Holds (.init cfg d.stripeId d.chunkId) := ⟨[], .init c _ _⟩
  have hstep : ∀ (s : OpenChunk cfg) (op : DataRequest cfg), Holds s → op.Proper s →
      Holds (s.step op) := fun s op ⟨_, hs⟩ hop => hs.step hop
  exact run_invariant_of_allowed hinit hstep d.requests h

end ChunkRequests

/-- The data chunks of the stripes of a list. -/
structure OpenStripes (c : Coding cfg) where
  chunks : List (ChunkRequests cfg)
  ids : (chunks.map fun d => (d.stripeId, d.chunkId)).Nodup
  chunkId_lt : ∀ d ∈ chunks, d.chunkId < c.dataChunkCount

namespace OpenStripes

variable {c : Coding cfg} (st : OpenStripes c)

/-- The objects that were stored in the chunks, at their places. -/
def items : List (Item cfg) := st.chunks.flatMap fun d => d.final.items

/-- What a parity server is sent. -/
def messages (listId : ℕ) : List Message := st.chunks.flatMap (·.messages listId)

/-- The data of a chunk. A chunk without requests is all zero. -/
def data (stripeId chunkId : ℕ) : Memory :=
  ((st.chunks.find? fun d => (d.stripeId, d.chunkId) = (stripeId, chunkId)).map
    fun d => d.final.data).getD 0

/-- The parity chunks are the encoding of the data chunks as their servers hold them. -/
def Reflected (parity : ℕ) (b : ParityChunkBuffer cfg) : Prop :=
  ∀ stripeId, ∀ i < cfg.chunkSize,
    (b.getWrapper stripeId).chunk i = c.encode (st.data stripeId) 0 (parity + 1) 0 0 i

end OpenStripes

variable (cfg) in
/-- The keys that a parity server learns of from a message. -/
def Message.names : Message → List Key
  | set body _ =>
    let buf := Memory.place 0 body
    match parseKeyValueHeader cfg buf body.length with
    | none => []
    | some header =>
      [.ofMemory buf header.key header.keySize
        (LargeObjectUtil.isLarge cfg header.keySize header.valueSize)]
  | sealChunk request => request.records.map SealRecord.key
  | _ => []

variable (cfg) in
/-- Every UPDATE comes when the SET of its object or the SEAL_CHUNK request that lists the object
has come. -/
def Timely (ms : List Message) : Prop :=
  ∀ past header rest, ms = past ++ .update header :: rest →
    ∃ m ∈ past, header.key ∈ m.names cfg

theorem Message.names_set (o : Object cfg) (chunkId : ℕ) :
    names cfg (.set o.bytes chunkId) = [o.mapKey] := by
  have hkey := (ParityChunkBuffer.request_parts o).1
  simp only [names, ParityChunkBuffer.parseKeyValueHeader_eq]
  exact congrArg (fun key => [key]) hkey

/-- An object whose key a message names arrives with the message or is listed by it. -/
theorem Event.mem_of_names {c : Coding cfg} {items : List (Item cfg)} (hc : Catalogued c items)
    {e : Event cfg} (hwf : e.WellFormed c items) {x : Item cfg} (hx : x ∈ items)
    (hkey : x.key ∈ e.message.names cfg) : x ∈ e.arrivals ∨ x ∈ e.listings := by
  have hsame : ∀ y ∈ items, x.key = y.key → y = x := by
    intro y hy heq
    by_contra hne
    exact hc.ident_ne hx hy hne (congrArg Key.ident heq.symm)
  cases e with
  | set y =>
    rw [message, Message.names_set] at hkey
    have heq : x.key = y.key := List.mem_singleton.mp hkey
    left
    rw [hsame y hwf heq]
    exact List.mem_singleton_self x
  | sealChunk request ys =>
    obtain ⟨hrecords, -, -, hys, -⟩ := hwf
    rw [message, Message.names, hrecords, List.map_map] at hkey
    obtain ⟨y, hy, heq⟩ := List.mem_map.mp hkey
    right
    rwa [← hsame y (hys y hy).1 heq.symm]
  | update y offset valueUpdate => cases hkey

/-- What comes for an object of which the server knows is allowed. -/
theorem Event.phase_ne_unknown {c : Coding cfg} {items : List (Item cfg)} (hc : Catalogued c items)
    {past : List (Event cfg)} (hwf : ∀ e ∈ past, e.WellFormed c items) {x : Item cfg}
    (hx : x ∈ items) (hnamed : ∃ m ∈ past.map Event.message, x.key ∈ m.names cfg) :
    (past.foldl Event.apply Ledger.init x).phase ≠ .unknown := by
  obtain ⟨m, hm, hkey⟩ := hnamed
  obtain ⟨e, he, rfl⟩ := List.mem_map.mp hm
  rw [Ledger.phase_run]
  rcases e.mem_of_names hc (hwf e he) hx hkey with harrives | hlists
  · have hmem : x ∈ past.flatMap Event.arrivals := List.mem_flatMap.mpr ⟨e, he, harrives⟩
    rw [decide_eq_true hmem]
    cases decide (x ∈ past.flatMap Event.listings) <;> simp [Phase.of]
  · have hmem : x ∈ past.flatMap Event.listings := List.mem_flatMap.mpr ⟨e, he, hlists⟩
    rw [decide_eq_true hmem]
    cases decide (x ∈ past.flatMap Event.arrivals) <;> simp [Phase.of]

namespace OpenStripes

variable {c : Coding cfg} {st : OpenStripes c}

/-- The maps of the server tell the keys of all objects apart. -/
def KeysApart (st : OpenStripes c) : Prop := (st.items.map fun x => x.key.ident).Nodup

instance : Decidable st.KeysApart := inferInstanceAs (Decidable (List.Nodup _))

theorem catalogued (hkeys : st.KeysApart) (hproper : ∀ d ∈ st.chunks, d.Proper) :
    Catalogued c st.items where
  idents := hkeys
  fits := by
    intro x hx
    obtain ⟨d, hd, hx⟩ := List.mem_flatMap.mp hx
    obtain ⟨es, hinv⟩ := d.exists_inv c (hproper d hd)
    exact (hinv.end_le hx).trans hinv.fits
  chunkId_lt := by
    intro x hx
    obtain ⟨d, hd, hx⟩ := List.mem_flatMap.mp hx
    rw [(Prod.mk.inj (d.ids_of_mem_items hx)).2]
    exact st.chunkId_lt d hd

/-- The events of the messages of a chunk. -/
def eventsOf (listId : ℕ) (events : ChunkRequests cfg → List (Event cfg)) (d : ChunkRequests cfg) :
    List (Event cfg) := events d ++ [.sealChunk (d.final.request listId) d.final.items]

section Events

variable {listId : ℕ} {events : ChunkRequests cfg → List (Event cfg)}
  (hevents : ∀ d ∈ st.chunks, OpenChunk.Inv c d.final (events d))
include hevents

theorem map_message_events :
    (st.chunks.flatMap (eventsOf listId events)).map Event.message = st.messages listId := by
  rw [messages, List.map_flatMap]
  refine List.flatMap_congr fun d hd => ?_
  rw [eventsOf, ChunkRequests.messages, List.map_append, (hevents d hd).sent]
  rfl

theorem arrivals_events :
    (st.chunks.flatMap (eventsOf listId events)).flatMap Event.arrivals = st.items := by
  rw [items, List.flatMap_assoc]
  refine List.flatMap_congr fun d hd => ?_
  rw [eventsOf, List.flatMap_append, (hevents d hd).arrivals]
  exact List.append_nil _

theorem listings_events :
    (st.chunks.flatMap (eventsOf listId events)).flatMap Event.listings = st.items := by
  rw [items, List.flatMap_assoc]
  refine List.flatMap_congr fun d hd => ?_
  rw [eventsOf, List.flatMap_append, (hevents d hd).listings]
  exact List.append_nil _

theorem wellFormed_events {e : Event cfg} (he : e ∈ st.chunks.flatMap (eventsOf listId events)) :
    e.WellFormed c st.items := by
  obtain ⟨d, hd, he⟩ := List.mem_flatMap.mp he
  have hmem : ∀ x ∈ d.final.items, x ∈ st.items := fun x hx => List.mem_flatMap.mpr ⟨d, hd, hx⟩
  have hinv := hevents d hd
  rcases List.mem_append.mp he with he | he
  · exact (hinv.wellFormed e he).mono hmem
  · rw [List.mem_singleton.mp he]
    obtain ⟨hcount, hrecords⟩ := hinv.request_eq listId
    obtain ⟨hstripe, hchunk⟩ := d.final_ids
    refine ⟨hrecords, hcount, ?_, fun x hx => ⟨hmem x hx, ?_⟩, hinv.pairwise_items⟩
    · exact hchunk.trans_lt (st.chunkId_lt d hd)
    · obtain ⟨e', -, rfl⟩ := List.mem_map.mp hx
      exact ⟨rfl, rfl⟩

/-- An object is updated by the messages of its chunk only. -/
theorem sum_revisions {s ci : ℕ} {d : ChunkRequests cfg}
    (hfind : (st.chunks.find? fun d => (d.stripeId, d.chunkId) = (s, ci)) = some d) {x : Item cfg}
    (hx : x ∈ d.final.items) :
    ((st.chunks.flatMap (eventsOf listId events)).map (Event.revisionOf x)).sum =
      ((events d).map (Event.revisionOf x)).sum := by
  have hids : (d.stripeId, d.chunkId) = (s, ci) := by
    simpa using List.find?_some hfind
  have hchunk : ∀ d' ∈ st.chunks, ((eventsOf listId events d').map (Event.revisionOf x)).sum =
      if (d'.stripeId, d'.chunkId) = (s, ci) then ((events d').map (Event.revisionOf x)).sum
      else 0 := by
    intro d' hd'
    have hseal : ([Event.sealChunk (d'.final.request listId) d'.final.items].map
        (Event.revisionOf x)).sum = 0 := List.sum_singleton
    rw [eventsOf, List.map_append, List.sum_append, hseal, add_zero]
    split_ifs with heq
    · rfl
    · refine (hevents d' hd').revisions_eq_zero fun hmem => heq ?_
      rw [← d'.ids_of_mem_items hmem, d.ids_of_mem_items hx, hids]
  rw [List.map_flatMap, List.flatMap, List.sum_flatten, List.map_map]
  refine (congrArg List.sum (List.map_congr_left hchunk)).trans ?_
  rw [sum_map_ite_eq_find? (fun d : ChunkRequests cfg => (d.stripeId, d.chunkId)) _ st.ids, hfind]
  rfl

/-- When all objects have arrived and are listed, the ledger has the data of the chunks. -/
theorem data_eq {l : Ledger cfg} (hphase : ∀ x ∈ st.items, (l x).phase = .folded)
    (hdelta : ∀ x, (l x).delta =
      ((st.chunks.flatMap (eventsOf listId events)).map (Event.revisionOf x)).sum)
    (s ci : ℕ) {i : ℕ} (hi : i < cfg.chunkSize) : l.data st.items s ci i = st.data s ci i := by
  rw [items, l.data_flatMap (fun d : ChunkRequests cfg => (d.stripeId, d.chunkId))
    (fun d => d.final.items) (fun d _ x hx => d.ids_of_mem_items hx) st.ids, data]
  cases hfind : st.chunks.find? fun d => (d.stripeId, d.chunkId) = (s, ci) with
  | none => rfl
  | some d =>
    have hd := List.mem_of_find?_eq_some hfind
    have hcontent : (d.final.items.map fun x => (l x).content x) =
        d.final.items.map fun x => x.placed + ((events d).map (Event.revisionOf x)).sum := by
      refine List.map_congr_left fun x hx => ?_
      rw [ItemState.content, hphase x (List.mem_flatMap.mpr ⟨d, hd, hx⟩), hdelta,
        sum_revisions hevents hfind hx]
    simp only [Option.map_some, Option.getD_some, hcontent]
    exact ((hevents d hd).content i hi).symm

end Events

/-- In every order in which each UPDATE comes for an object that is known, the parity chunks end up
as the encoding of the data chunks. -/
theorem reflected_of_timely (st : OpenStripes c) (hkeys : st.KeysApart)
    (hproper : ∀ d ∈ st.chunks, d.Proper) (listId parity : ℕ) {ms : List Message}
    (hms : ms.Perm (st.messages listId)) (htimely : Timely cfg ms) :
    ∃ b, (ParityChunkBuffer.fresh c listId parity).receiveAll ms = some b ∧
      st.Reflected parity b := by
  have hc := catalogued hkeys hproper
  have hinv : ∀ d ∈ st.chunks, ∃ es, OpenChunk.Inv c d.final es :=
    fun d hd => d.exists_inv c (hproper d hd)
  choose! events hevents using hinv
  -- The messages come with the objects that they are about.
  rw [← map_message_events hevents] at hms
  obtain ⟨es, rfl, hes⟩ := exists_perm_of_perm_map hms
  have harrivals : (es.flatMap Event.arrivals).Perm st.items :=
    (hes.flatMap_right _).trans (arrivals_events hevents ▸ List.Perm.refl _)
  have hlistings : (es.flatMap Event.listings).Perm st.items :=
    (hes.flatMap_right _).trans (listings_events hevents ▸ List.Perm.refl _)
  have hwf : ∀ e ∈ es, e.WellFormed c st.items :=
    fun e he => wellFormed_events hevents (hes.mem_iff.mp he)
  obtain ⟨b, hb, htracks, hphase⟩ := Tracks.run_of_perm hc listId parity hwf harrivals hlistings
    fun as x offset valueUpdate bs heq => by
      have hx : x ∈ st.items := (hwf (.update x offset valueUpdate)
        (heq ▸ List.mem_append_right _ List.mem_cons_self)).1
      refine Event.phase_ne_unknown hc (fun e he => hwf e ?_) hx ?_
      · rw [heq]
        exact List.mem_append_left _ he
      · refine htimely (as.map Event.message) (x.updateHeader offset valueUpdate)
          (bs.map Event.message) ?_
        rw [heq, List.map_append]
        rfl
  have hdelta : ∀ x, (es.foldl Event.apply Ledger.init x).delta =
      ((st.chunks.flatMap (eventsOf listId events)).map (Event.revisionOf x)).sum := by
    intro x
    rw [Ledger.delta_run, (hes.map _).sum_eq]
  exact ⟨b, hb, fun s i hi =>
    htracks.encoded (fun ci j hj => data_eq hevents hphase hdelta s ci hj) hi⟩

end OpenStripes

/-! ## What is lost -/

/-- After an UPDATE of an object that the server does not know, the SET of the object is thrown
away. -/
theorem ParityChunkBuffer.set_lost {b b₁ b₂ : ParityChunkBuffer cfg} {o : Object cfg}
    {header : ChunkKeyValueUpdateHeader} {chunkId : ℕ} (hkey : header.key = o.mapKey)
    (hk : b.keys.find o.mapKey = none) (hp : b.pending.find o.mapKey = none)
    (hupdate : b.handle (.update header) = some b₁)
    (hset : b₁.handle (.set o.bytes chunkId) = some b₂) :
    b₂.keys.find o.mapKey = none ∧ b₂.pending.find o.mapKey = none ∧ b₂.folded = b.folded ∧
      b₂.chunks = b₁.chunks := by
  have hstep : b₁.keys = b.keys ∧ b₁.folded = b.folded ∧ b₁.pending.find o.mapKey =
      some (.prtUpdate header.valueUpdateOffset header.valueUpdate.length header.valueUpdate) := by
    simp only [handle, handleUpdateRequest, updateKeyValue, hkey, hk, Bool.false_eq_true, if_false,
      updateChunk, ParityChunkBuffer.update, Bool.false_and, Option.some.injEq] at hupdate
    rw [← hupdate]
    refine ⟨rfl, rfl, ?_⟩
    exact (KeyMap.find_insertNew _ _ _ _).trans (if_pos ⟨rfl, hp⟩)
  obtain ⟨hkeys, hfolded, hpending⟩ := hstep
  have hk₁ : b₁.keys.find o.mapKey = none := hkeys ▸ hk
  rw [handle, handleSetRequest_eq, hk₁, hpending] at hset
  obtain rfl := Option.some.inj hset
  refine ⟨hk₁, ?_, hfolded, rfl⟩
  exact (KeyMap.find_eraseKey _ _ _).trans (if_pos rfl)

/-- A deletion takes the first header from the data chunk, and its DELETE leaves every parity chunk
as it is. -/
theorem OpenChunk.Inv.delete_unseen {c : Coding cfg} {s : OpenChunk cfg} {es : List (Event cfg)}
    (h : OpenChunk.Inv c s es) {i : ℕ} {e : ChunkHistory.Entry cfg} (he : s.findObject i = some e)
    (buffer : Memory) :
    s.data 0 ≠ 0 ∧ (s.step (.delete i buffer)).data 0 = 0 ∧
      (s.step (.delete i buffer)).sent = s.sent ++ [.delete e.object.key] ∧
      ∀ b b' : ParityChunkBuffer cfg, b.handle (.delete e.object.key) = some b' →
        b'.chunks = b.chunks := by
  have hmem : e ∈ s.entries := by
    have hany := (Option.filter_eq_some_iff.mp he).1
    exact List.mem_of_getElem? (Option.filter_eq_some_iff.mp hany).1
  have hfirst : ∃ o, (⟨s.stripeId, s.chunkId, 0, o⟩ : Item cfg) ∈ s.items := by
    have hobject : e.object ∈ s.objects := List.mem_map_of_mem hmem
    rw [h.items_eq]
    cases hobjects : s.objects with
    | nil =>
      rw [hobjects] at hobject
      cases hobject
    | cons o os => exact ⟨o, List.mem_cons_self⟩
  obtain ⟨o, ho⟩ := hfirst
  have hhead : s.data.Holds 0 (o.header ++ o.keyBytes) := h.heads _ ho
  have hkey : 0 < o.key.length := by
    obtain ⟨e', he', heq⟩ := List.mem_map.mp ho
    have hne := h.keys e'.object (List.mem_map_of_mem he')
    rw [(Item.mk.inj heq).2.2.2] at hne
    exact List.length_pos_iff.mpr hne
  have hsize := (Object.holds_header hhead).1
  have hstep : s.step (.delete i buffer) = s.deleteEntry i e buffer := by
    rw [OpenChunk.step, he]
  have hdeleted : 0 < (deleteObject cfg s.data 0 (some buffer)).2.2 := by
    have hlen := o.length_key
    have hvalue := o.valueSize_lt
    rw [deleteObject_length, Object.deserialize_of_header hhead, u32_eq (by simp only; omega)]
    simp only
    omega
  rw [hstep]
  refine ⟨fun hzero => ?_, deleteObject_head _ hdeleted, rfl, fun b b' hb => ?_⟩
  · rw [hzero] at hsize
    exact hkey.ne hsize
  · obtain rfl := Option.some.inj hb
    rw [ParityChunkBuffer.deleteKey]
    split <;> rfl

namespace OpenStripes

variable {c : Coding cfg} {st : OpenStripes c}

/-- One byte tells that the parity is not the encoding. -/
theorem not_reflected_of_byte {st : OpenStripes c} {listId parity i : ℕ} {ms : List Message}
    (hi : i < cfg.chunkSize)
    (h : ((ParityChunkBuffer.fresh c listId parity).receiveAll ms).all (fun b =>
      (b.getWrapper 0).chunk i != c.encode (st.data 0) 0 (parity + 1) 0 0 i) = true) :
    ¬ ∃ b, (ParityChunkBuffer.fresh c listId parity).receiveAll ms = some b ∧
      st.Reflected parity b := by
  rintro ⟨b, hb, hreflected⟩
  rw [hb, Option.all_some, bne_iff_ne] at h
  exact h (hreflected 0 i hi)

/-- An object with a key of one byte and a value of one byte. -/
def sampleObject : Object GlobalConfig.smallest :=
  .plain [120] [121] (by decide) (by decide)

/-- A stripe with these requests for its first data chunk. -/
def sampleStripes (requests : List (DataRequest GlobalConfig.smallest)) :
    OpenStripes (.raid5 2 : Coding GlobalConfig.smallest) where
  chunks := [⟨0, 0, requests⟩]
  ids := List.nodup_singleton _
  chunkId_lt := by simp [Coding.dataChunkCount]

/-- An object is stored and updated. -/
def updatedStripes := sampleStripes [.set sampleObject, .update 0 0 [119]]

/-- An object is stored and deleted. -/
def deletedStripes := sampleStripes [.set sampleObject, .delete 0 0]

/-- The UPDATE may come while the object is only known from the SEAL_CHUNK request. -/
theorem reflected_updatedStripes : ∃ b,
    (ParityChunkBuffer.fresh (.raid5 2) 0 0).receiveAll (updatedStripes.messages 0).reverse =
      some b ∧ updatedStripes.Reflected 0 b := by
  have hmessages : ∃ header request, updatedStripes.messages 0 =
      [.set sampleObject.bytes 0, .update header, .sealChunk request] ∧
        header.key ∈ (Message.sealChunk request).names .smallest :=
    ⟨_, _, rfl, by decide +kernel⟩
  refine reflected_of_timely updatedStripes (by decide +kernel) ?_ 0 0 (List.reverse_perm _) ?_
  · intro d hd n op hop
    rw [List.mem_singleton.mp hd] at hop ⊢
    rcases n with _ | _ | n
    · cases hop
      exact List.cons_ne_nil _ _
    · cases hop
      intro e he
      have hinside : ((ChunkRequests.after ⟨0, 0, [.set sampleObject, .update 0 0 [119]]⟩
          1).findAny 0).all (fun e => decide (1 ≤ e.object.payload.length)) = true := by
        decide +kernel
      rw [he] at hinside
      exact of_decide_eq_true hinside
    · cases hop
  · obtain ⟨header, request, heq, hkey⟩ := hmessages
    rw [heq]
    intro past header' rest hsplit
    rcases past with _ | ⟨m₁, _ | ⟨m₂, _ | ⟨m₃, past⟩⟩⟩
    · cases hsplit
    · cases hsplit
      exact ⟨_, List.mem_singleton_self _, hkey⟩
    · cases hsplit
    · have hlen := congrArg List.length hsplit
      simp at hlen

/-- An UPDATE that comes first is lost along with its object, and the bytes that a deletion leaves
in the data chunk are never sent. -/
theorem not_reflected_of_earlyUpdate_of_deletion :
    (¬ ∀ ms : List Message, ms.Perm (updatedStripes.messages 0) →
      ∃ b, (ParityChunkBuffer.fresh (.raid5 2) 0 0).receiveAll ms = some b ∧
        updatedStripes.Reflected 0 b) ∧
    ¬ ∀ ms : List Message, ms.Perm (deletedStripes.messages 0) →
      ∃ b, (ParityChunkBuffer.fresh (.raid5 2) 0 0).receiveAll ms = some b ∧
        deletedStripes.Reflected 0 b := by
  constructor
  · intro h
    have hswap := (List.reverse_perm ((updatedStripes.messages 0).take 2)).append_right
      ((updatedStripes.messages 0).drop 2)
    rw [List.take_append_drop] at hswap
    have hzero : 0 < GlobalConfig.smallest.chunkSize := by decide
    exact not_reflected_of_byte hzero (by decide +kernel) (h _ hswap)
  · intro h
    have hthree : 3 < GlobalConfig.smallest.chunkSize := by decide
    exact not_reflected_of_byte hthree (by decide +kernel) (h _ (List.Perm.refl _))

end OpenStripes

end MemEC.Server
