import MemEC.Server.ParityRun

/-!
# SETs and SEAL_CHUNK requests in any order

The data chunks of the stripes of a list are filled with objects and sealed. A
parity server receives the SET of each object and the SEAL_CHUNK request of
each chunk, in any order. Once all of them have come, its parity chunks are
the encoding of the data chunks.

This needs every key to be listed by the SEAL_CHUNK request of its chunk, for
which it must not be empty, and no two keys to be one key for the maps of the
server. If one of the two fails, there is an order in which a key stays behind
in one of the maps.
-/

namespace MemEC.Server

open MemEC.Lib MemEC.Common

variable {cfg : GlobalConfig}

/-- A data chunk with the objects that are stored in it. -/
structure DataChunk (cfg : GlobalConfig) where
  stripeId : ℕ
  chunkId : ℕ
  objects : List (Object cfg)
  fits : (layout objects).length ≤ cfg.chunkSize

namespace DataChunk

variable (d : DataChunk cfg) (listId : ℕ)

/-- The data of the chunk. -/
def data : Memory := d.objects.foldl (fun m o => (ChunkUtil.store cfg m o).1) 0

/-- The SEAL_CHUNK request for the chunk. -/
def request : SealRequest := reqSealChunk cfg ⟨listId, d.stripeId, d.chunkId, d.data⟩ 0

/-- The SETs of the objects. -/
def sets : List Message := d.objects.map fun o => .set o.bytes d.chunkId

/-- What a parity server receives. -/
def messages : List Message := d.sets ++ [.sealChunk (d.request listId)]

end DataChunk

/-- Data chunks of the stripes of a list. -/
structure Stripes (c : Coding cfg) where
  chunks : List (DataChunk cfg)
  ids : (chunks.map fun d => (d.stripeId, d.chunkId)).Nodup
  chunkId_lt : ∀ d ∈ chunks, d.chunkId < c.dataChunkCount

namespace Stripes

variable {c : Coding cfg} (st : Stripes c)

/-- The objects in the chunks. -/
def objects : List (Object cfg) := st.chunks.flatMap DataChunk.objects

/-- What a parity server receives. -/
def messages (listId : ℕ) : List Message := st.chunks.flatMap (·.messages listId)

/-- The data of a chunk. A chunk that no object was stored in is all zero. -/
def data (stripeId chunkId : ℕ) : Memory :=
  ((st.chunks.find? fun d => (d.stripeId, d.chunkId) = (stripeId, chunkId)).map
    DataChunk.data).getD 0

/-- The parity chunks are the encoding of the data chunks, no key waits for anything, and no key
has been folded twice. -/
structure Settled (parity : ℕ) (b : ParityChunkBuffer cfg) : Prop where
  encoded : ∀ stripeId, ∀ i < cfg.chunkSize,
    (b.getWrapper stripeId).chunk i = c.encode (st.data stripeId) 0 (parity + 1) 0 0 i
  keys : ∀ o ∈ st.objects, b.keys.find o.mapKey = none
  pending : ∀ o ∈ st.objects, b.pending.find o.mapKey = none
  folded : ∀ o ∈ st.objects, b.folded.count o.mapKey ≤ 1

/-- No key is empty, and the maps of the server tell all keys apart. -/
def KeysApart : Prop :=
  (∀ o ∈ st.objects, o.key ≠ []) ∧ (st.objects.map fun o => o.mapKey.ident).Nodup

end Stripes

/-! ## Chunks whose keys are listed -/

namespace DataChunk

variable (d : DataChunk cfg) (listId : ℕ)

/-- The objects at their places. -/
def items : List (Item cfg) :=
  (placed 0 d.objects).map fun p => ⟨d.stripeId, d.chunkId, p.1, p.2⟩

theorem map_object_items : d.items.map Item.object = d.objects := by
  rw [items, List.map_map]
  exact map_snd_placed 0 d.objects

theorem ids_of_mem_items {x : Item cfg} (h : x ∈ d.items) :
    (x.stripeId, x.chunkId) = (d.stripeId, d.chunkId) := by
  obtain ⟨p, -, rfl⟩ := List.mem_map.mp h
  rfl

theorem fits_of_mem_items {x : Item cfg} (h : x ∈ d.items) :
    x.offset + x.object.size ≤ cfg.chunkSize := by
  obtain ⟨p, hp, rfl⟩ := List.mem_map.mp h
  have hb := (mem_placed_bounds hp).2
  have hfits := d.fits
  rw [Nat.zero_add] at hb
  exact hb.trans hfits

theorem pairwise_items : d.items.Pairwise fun x y => x.offset + x.object.size ≤ y.offset :=
  List.pairwise_map.mpr (pairwise_placed 0 d.objects)

/-- The messages with the objects that they are about. -/
def events : List (Event cfg) := d.items.map .set ++ [.sealChunk (d.request listId) d.items]

theorem map_message_events : (d.events listId).map Event.message = d.messages listId := by
  have hsets : d.items.map (fun x => Message.set x.object.bytes x.chunkId) = d.sets := by
    rw [sets, ← d.map_object_items, List.map_map]
    refine List.map_congr_left fun x hx => ?_
    rw [(Prod.mk.inj (d.ids_of_mem_items hx)).2]
    rfl
  rw [events, messages, ← hsets, List.map_append, List.map_map]
  rfl

theorem arrivals_events : (d.events listId).flatMap Event.arrivals = d.items := by
  rw [events, List.flatMap_append, List.flatMap_map]
  simp [Event.arrivals]

theorem listings_events : (d.events listId).flatMap Event.listings = d.items := by
  rw [events, List.flatMap_append, List.flatMap_map]
  simp [Event.listings]

variable {d}

theorem chunkHolds (hk : ∀ o ∈ d.objects, o.key ≠ []) : ChunkHolds d.data d.objects := by
  have hempty : ChunkHolds (0 : Memory) ([] : List (Object cfg)) := .empty fun _ _ => rfl
  have hk' : ∀ o ∈ [] ++ d.objects, o.Visible := fun o ho => Or.inl (hk o ho)
  exact hempty.storeAll hk' d.fits

theorem request_eq (hk : ∀ o ∈ d.objects, o.key ≠ []) :
    (d.request listId).count = d.items.length ∧
      (d.request listId).records = d.items.map Item.sealRecord := by
  have h := chunkHolds hk
  obtain ⟨hcount, hrecords⟩ := reqSealChunk_of_layout ⟨listId, d.stripeId, d.chunkId, d.data⟩
    h.holds hk h.fits h.nextEnds
  refine ⟨?_, ?_⟩
  · rw [← List.length_map (f := Item.object), d.map_object_items]
    exact hcount
  · refine hrecords.trans ?_
    rw [items, List.map_map]
    rfl

/-- The data of a chunk are its objects at their places. -/
theorem data_apply (hk : ∀ o ∈ d.objects, o.key ≠ []) {i : ℕ} (hi : i < cfg.chunkSize) :
    d.data i = (d.items.map Item.placed).sum i := by
  rw [(chunkHolds hk).apply_eq_sum hi, items, List.map_map]
  rfl

end DataChunk

namespace Stripes

variable {c : Coding cfg} {st : Stripes c}

/-- The objects of all chunks at their places. -/
def items (st : Stripes c) : List (Item cfg) := st.chunks.flatMap DataChunk.items

theorem map_object_items (st : Stripes c) : st.items.map Item.object = st.objects := by
  rw [items, objects, List.map_flatMap]
  exact List.flatMap_congr fun d _ => d.map_object_items

theorem catalogued (hnodup : (st.objects.map fun o => o.mapKey.ident).Nodup) :
    Catalogued c st.items where
  idents := by
    rw [← st.map_object_items, List.map_map] at hnodup
    exact hnodup
  fits := by
    intro x hx
    obtain ⟨d, -, hx⟩ := List.mem_flatMap.mp hx
    exact d.fits_of_mem_items hx
  chunkId_lt := by
    intro x hx
    obtain ⟨d, hd, hx⟩ := List.mem_flatMap.mp hx
    rw [(Prod.mk.inj (d.ids_of_mem_items hx)).2]
    exact st.chunkId_lt d hd

/-- The events of the run that `messages` lists. -/
def events (st : Stripes c) (listId : ℕ) : List (Event cfg) :=
  st.chunks.flatMap (·.events listId)

theorem map_message_events (st : Stripes c) (listId : ℕ) :
    (st.events listId).map Event.message = st.messages listId := by
  rw [events, messages, List.map_flatMap]
  exact List.flatMap_congr fun d _ => d.map_message_events listId

theorem arrivals_events (st : Stripes c) (listId : ℕ) :
    (st.events listId).flatMap Event.arrivals = st.items := by
  rw [events, items, List.flatMap_assoc]
  exact List.flatMap_congr fun d _ => d.arrivals_events listId

theorem listings_events (st : Stripes c) (listId : ℕ) :
    (st.events listId).flatMap Event.listings = st.items := by
  rw [events, items, List.flatMap_assoc]
  exact List.flatMap_congr fun d _ => d.listings_events listId

theorem wellFormed_of_mem_events (hk : ∀ o ∈ st.objects, o.key ≠ [])
    {listId : ℕ} {e : Event cfg} (he : e ∈ st.events listId) :
    e.WellFormed c st.items ∧ ∀ x, e.revisionOf x = 0 ∧ e.revises x = false := by
  obtain ⟨d, hd, he⟩ := List.mem_flatMap.mp he
  have hkd : ∀ o ∈ d.objects, o.key ≠ [] := fun o ho =>
    hk o (List.mem_flatMap.mpr ⟨d, hd, ho⟩)
  have hmem : ∀ x ∈ d.items, x ∈ st.items := fun x hx => List.mem_flatMap.mpr ⟨d, hd, hx⟩
  rcases List.mem_append.mp he with he | he
  · obtain ⟨x, hx, rfl⟩ := List.mem_map.mp he
    exact ⟨hmem x hx, fun _ => ⟨rfl, rfl⟩⟩
  · rw [List.mem_singleton.mp he]
    obtain ⟨hcount, hrecords⟩ := d.request_eq listId hkd
    refine ⟨⟨hrecords, hcount, st.chunkId_lt d hd, fun x hx => ⟨hmem x hx, ?_⟩,
      d.pairwise_items⟩, fun _ => ⟨rfl, rfl⟩⟩
    exact Prod.mk.inj (d.ids_of_mem_items hx)

/-- Once everything has come, the ledger has the data of all chunks. -/
theorem data_eq (hk : ∀ o ∈ st.objects, o.key ≠ []) {l : Ledger cfg}
    (hl : ∀ x ∈ st.items, (l x).content x = x.placed) (s ci : ℕ) {i : ℕ} (hi : i < cfg.chunkSize) :
    l.data st.items s ci i = st.data s ci i := by
  rw [items, l.data_flatMap (fun d : DataChunk cfg => (d.stripeId, d.chunkId)) DataChunk.items
    (fun d _ x hx => d.ids_of_mem_items hx) st.ids, data]
  cases hfind : st.chunks.find? fun d => (d.stripeId, d.chunkId) = (s, ci) with
  | none => rfl
  | some d =>
    have hd := List.mem_of_find?_eq_some hfind
    have hkd : ∀ o ∈ d.objects, o.key ≠ [] := fun o ho =>
      hk o (List.mem_flatMap.mpr ⟨d, hd, ho⟩)
    have hcontent : (d.items.map fun x => (l x).content x) = d.items.map Item.placed :=
      List.map_congr_left fun x hx => hl x (List.mem_flatMap.mpr ⟨d, hd, hx⟩)
    simp only [Option.map_some, Option.getD_some, hcontent]
    exact (DataChunk.data_apply hkd hi).symm

/-- In every order of the messages, the parity server ends up with the encoding of the chunks. -/
theorem settled_of_perm (h : st.KeysApart) (listId parity : ℕ) {ms : List Message}
    (hms : ms.Perm (st.messages listId)) :
    ∃ b, (ParityChunkBuffer.fresh c listId parity).receiveAll ms = some b ∧
      st.Settled parity b := by
  have hc := catalogued h.2
  -- The messages come with the objects that they are about.
  rw [← st.map_message_events] at hms
  obtain ⟨es, rfl, hes⟩ := exists_perm_of_perm_map hms
  have harrivals : (es.flatMap Event.arrivals).Perm st.items :=
    (hes.flatMap_right _).trans (st.arrivals_events listId ▸ List.Perm.refl _)
  have hlistings : (es.flatMap Event.listings).Perm st.items :=
    (hes.flatMap_right _).trans (st.listings_events listId ▸ List.Perm.refl _)
  have hwf : ∀ e ∈ es, e.WellFormed c st.items ∧ ∀ x, e.revisionOf x = 0 ∧ e.revises x = false :=
    fun e he => wellFormed_of_mem_events h.1 (hes.mem_iff.mp he)
  obtain ⟨b, hb, htracks, hphase⟩ := Tracks.run_of_perm hc listId parity
    (fun e he => (hwf e he).1) harrivals hlistings fun as x offset valueUpdate bs heq => by
      have hmem : .update x offset valueUpdate ∈ es :=
        heq ▸ List.mem_append_right _ List.mem_cons_self
      have hrevises := ((hwf _ hmem).2 x).2
      simp [Event.revises] at hrevises
  refine ⟨b, hb, ?_⟩
  set l := es.foldl Event.apply Ledger.init with hl
  have hdelta : ∀ x, (l x).delta = 0 := by
    intro x
    rw [hl, Ledger.delta_run]
    exact List.sum_eq_zero fun m hm => by
      obtain ⟨e, he, rfl⟩ := List.mem_map.mp hm
      exact ((hwf e he).2 x).1
  have hrevised : ∀ x, (l x).revised = false := by
    intro x
    rw [hl, Ledger.revised_run]
    exact List.any_eq_false.mpr fun e he => by simp [((hwf e he).2 x).2]
  have hitem : ∀ o ∈ st.objects, b.keys.find o.mapKey = none ∧ b.pending.find o.mapKey = none ∧
      b.folded.count o.mapKey = 1 := by
    intro o ho
    rw [← st.map_object_items] at ho
    obtain ⟨x, hx, rfl⟩ := List.mem_map.mp ho
    have hagrees := htracks.agrees x hx
    simp only [Agrees, hphase x hx, hrevised x, Bool.false_eq_true, false_and, or_false] at hagrees
    exact hagrees
  refine ⟨fun s i hi => htracks.encoded (fun ci j hj => ?_) hi, fun o ho => (hitem o ho).1,
    fun o ho => (hitem o ho).2.1, fun o ho => (hitem o ho).2.2.le⟩
  refine data_eq h.1 (fun x hx => ?_) s ci hj
  simp only [ItemState.content, hphase x hx, hdelta x, add_zero]

end Stripes

/-! ## An order in which a key stays behind -/

namespace ParityChunkBuffer

variable {b b' : ParityChunkBuffer cfg} {k : Key}

/-- While only SETs come, nothing is pending and every key is stored. -/
theorem receiveAll_sets {os : List (Object cfg × ℕ)}
    (h : b.receiveAll (os.map fun p => .set p.1.bytes p.2) = some b')
    (hp : ∀ k, b.pending.find k = none) : (∀ k, b'.pending.find k = none) ∧
      ∀ k : Key, (b.keys.find k ≠ none ∨ ∃ p ∈ os, p.1.mapKey.ident = k.ident) →
        b'.keys.find k ≠ none := by
  induction os generalizing b with
  | nil =>
    rw [List.map_nil, receiveAll_nil, Option.some.injEq] at h
    subst h
    simp [hp]
  | cons p os ih =>
    have hset : b.handle (.set p.1.bytes p.2) = some { b with
        keys := (b.keys.insertNew p.1.mapKey (.place 0 p.1.bytes)).1 } := by
      refine (b.handleSetRequest_eq p.1 p.2).trans ?_
      cases hfind : b.keys.find p.1.mapKey with
      | none => simp [hp]
      | some keyValue => simp [KeyMap.insertNew_of_some hfind]
    rw [List.map_cons, receiveAll_cons, hset] at h
    obtain ⟨hp', hk'⟩ := ih h hp
    refine ⟨hp', fun k hk => hk' k ?_⟩
    rcases hk with hk | ⟨q, hq, hident⟩
    · left
      rw [KeyMap.find_insertNew]
      split_ifs
      · exact Option.some_ne_none _
      · exact hk
    · rcases List.mem_cons.mp hq with rfl | hq
      · left
        rw [KeyMap.find_insertNew]
        cases hfind : b.keys.find q.1.mapKey with
        | none => simp [hident]
        | some keyValue => simp [← b.keys.find_congr hident, hfind]
      · exact Or.inr ⟨q, hq, hident⟩

/-- A key that is not listed stays stored. -/
theorem find_keys_foldl_sealStep {rs : List SealRecord} (hrs : ∀ r ∈ rs, r.key.ident ≠ k.ident)
    (sid : ℕ) (s : SealLoop cfg) :
    (rs.foldl (sealStep sid) s).buffer.keys.find k = s.buffer.keys.find k := by
  induction rs generalizing s with
  | nil => rfl
  | cons r rs ih =>
    refine (ih (fun r' hr' => hrs r' (List.mem_cons_of_mem _ hr')) _).trans ?_
    have hne := hrs r List.mem_cons_self
    cases hfind : s.buffer.keys.find r.key with
    | none => rw [(sealStep_of_none hfind sid).1]
    | some keyValue =>
      rw [(sealStep_of_some hfind sid).1, KeyMap.find_eraseKey, if_neg (Ne.symm hne)]

theorem find_keys_receiveAll_seals {rs : List SealRequest}
    (hrs : ∀ r ∈ rs, ∀ q ∈ r.records, q.key.ident ≠ k.ident)
    (h : b.receiveAll (rs.map .sealChunk) = some b') : b'.keys.find k = b.keys.find k := by
  induction rs generalizing b with
  | nil =>
    rw [List.map_nil, receiveAll_nil, Option.some.injEq] at h
    rw [h]
  | cons r rs ih =>
    rw [List.map_cons, receiveAll_cons, Option.bind_eq_some_iff] at h
    obtain ⟨b₁, hb₁, h⟩ := h
    rw [ih (fun r' hr' => hrs r' (List.mem_cons_of_mem _ hr')) h, (sealChunk_maps hb₁).1,
      find_keys_foldl_sealStep (hrs r List.mem_cons_self)]

/-- `n` more records of a key will leave it pending: a stored key serves one record only. -/
def Due (b : ParityChunkBuffer cfg) (k : Key) (n : ℕ) : Prop :=
  b.pending.find k ≠ none ∨ (b.keys.find k = none ∧ 1 ≤ n) ∨ 2 ≤ n

theorem Due.sealStep {s : SealLoop cfg} {r : SealRecord} {n : ℕ} (sid : ℕ)
    (h : Due s.buffer k (n + if r.key.ident = k.ident then 1 else 0)) :
    Due (sealStep sid s r).buffer k n := by
  by_cases hident : r.key.ident = k.ident
  · have hkeys := s.buffer.keys.find_congr hident
    rw [if_pos hident] at h
    cases hfind : s.buffer.keys.find r.key with
    | none =>
      left
      rw [(sealStep_of_none hfind sid).2, KeyMap.find_insertNew]
      split_ifs with hnew
      · exact Option.some_ne_none _
      · intro hnone
        exact hnew ⟨hident.symm, (s.buffer.pending.find_congr hident).trans hnone⟩
    | some keyValue =>
      obtain ⟨hk, hp⟩ := sealStep_of_some hfind sid
      unfold Due
      rw [hk, hp, KeyMap.find_eraseKey, if_pos hident.symm]
      rcases h with h | ⟨h, -⟩ | h
      · exact Or.inl h
      · rw [← hkeys, hfind] at h
        cases h
      · exact Or.inr (Or.inl ⟨rfl, by omega⟩)
  · rw [if_neg hident, Nat.add_zero] at h
    cases hfind : s.buffer.keys.find r.key with
    | none =>
      obtain ⟨hk, hp⟩ := sealStep_of_none hfind sid
      unfold Due
      rwa [hk, hp, KeyMap.find_insertNew, if_neg fun h => hident h.1.symm]
    | some keyValue =>
      obtain ⟨hk, hp⟩ := sealStep_of_some hfind sid
      unfold Due
      rwa [hk, hp, KeyMap.find_eraseKey, if_neg (Ne.symm hident)]

theorem Due.foldl_sealStep {s : SealLoop cfg} {rs : List SealRecord} {n : ℕ} (sid : ℕ)
    (h : Due s.buffer k (n + (rs.map fun r => r.key.ident).count k.ident)) :
    Due (rs.foldl (ParityChunkBuffer.sealStep sid) s).buffer k n := by
  induction rs generalizing s with
  | nil => exact h
  | cons r rs ih =>
    refine ih (Due.sealStep sid ?_)
    rw [List.map_cons, List.count_cons] at h
    simpa [Nat.add_assoc] using h

theorem Due.receiveAll_seals {rs : List SealRequest} {n : ℕ}
    (hr : b.receiveAll (rs.map .sealChunk) = some b')
    (h : Due b k (n + ((rs.flatMap SealRequest.records).map fun r => r.key.ident).count k.ident)) :
    Due b' k n := by
  induction rs generalizing b with
  | nil =>
    rw [List.map_nil, receiveAll_nil, Option.some.injEq] at hr
    rw [← hr]
    exact h
  | cons r rs ih =>
    rw [List.map_cons, receiveAll_cons, Option.bind_eq_some_iff] at hr
    obtain ⟨b₁, hb₁, hr⟩ := hr
    refine ih hr ?_
    rw [List.flatMap_cons, List.map_append, List.count_append, Nat.add_comm (List.count _ _),
      ← Nat.add_assoc] at h
    have hloop := Due.foldl_sealStep (s := ⟨b, 0, 0, true⟩) r.stripeId h
    obtain ⟨hkeys, hpending⟩ := sealChunk_maps hb₁
    unfold Due at hloop ⊢
    rwa [hkeys, hpending]

end ParityChunkBuffer

namespace Stripes

variable {c : Coding cfg} {st : Stripes c}

/-- The objects with the ids of their chunks. -/
def chunkObjects (st : Stripes c) : List (Object cfg × ℕ) :=
  st.chunks.flatMap fun d => d.objects.map fun o => (o, d.chunkId)

/-- The SEAL_CHUNK requests. -/
def requests (st : Stripes c) (listId : ℕ) : List SealRequest :=
  st.chunks.map fun d => d.request listId

/-- All SETs may come first. -/
theorem perm_messages (st : Stripes c) (listId : ℕ) :
    (st.chunkObjects.map (fun p => Message.set p.1.bytes p.2) ++
      (st.requests listId).map Message.sealChunk).Perm (st.messages listId) := by
  have hsets : st.chunkObjects.map (fun p => Message.set p.1.bytes p.2) =
      st.chunks.flatMap DataChunk.sets := by
    rw [chunkObjects, List.map_flatMap]
    refine List.flatMap_congr fun d _ => ?_
    rw [List.map_map]
    rfl
  rw [hsets, requests, List.map_map, List.map_eq_flatMap]
  exact List.flatMap_append_perm _ _ _

/-- When all SETs come first, what is left in the maps tells which keys were not served. -/
theorem keysApart_of_settled {listId parity : ℕ}
    (h : ∀ ms : List Message, ms.Perm (st.messages listId) →
      ∃ b, (ParityChunkBuffer.fresh c listId parity).receiveAll ms = some b ∧
        st.Settled parity b) : st.KeysApart := by
  obtain ⟨b, hb, hsettled⟩ := h _ (st.perm_messages listId)
  rw [ParityChunkBuffer.receiveAll_append, Option.bind_eq_some_iff] at hb
  obtain ⟨b₁, hsets, hseals⟩ := hb
  obtain ⟨-, hstored⟩ := ParityChunkBuffer.receiveAll_sets hsets fun _ => rfl
  have hrecords : ∀ d : DataChunk cfg, (d.request listId).records =
      listed cfg d.data cfg.chunkSize 0 := fun d => (reqSealChunk_eq _).2
  have hnonempty : ∀ o ∈ st.objects, o.key ≠ [] := by
    intro o ho hempty
    have hkeep : b.keys.find o.mapKey = b₁.keys.find o.mapKey := by
      refine ParityChunkBuffer.find_keys_receiveAll_seals (fun r hr q hq hident => ?_) hseals
      obtain ⟨d, -, rfl⟩ := List.mem_map.mp hr
      rw [hrecords] at hq
      have hpos := (listed_bounds hq).1
      have hsize : q.key.size = o.mapKey.size := congrArg Key.Ident.size hident
      rw [hsize, o.mapKey_size, hempty] at hpos
      exact Nat.lt_irrefl 0 hpos
    obtain ⟨d, hd, hod⟩ := List.mem_flatMap.mp ho
    refine hstored o.mapKey (Or.inr ⟨(o, d.chunkId), ?_, rfl⟩) (hkeep.symm.trans
      (hsettled.keys o ho))
    exact List.mem_flatMap.mpr ⟨d, hd, List.mem_map_of_mem hod⟩
  refine ⟨hnonempty, List.nodup_iff_count_le_one.mpr fun ident => ?_⟩
  by_contra htwo
  obtain ⟨o, ho, rfl⟩ := List.mem_map.mp (List.count_pos_iff.mp (by omega :
    0 < (st.objects.map fun o => o.mapKey.ident).count ident))
  have hlist : ((st.requests listId).flatMap SealRequest.records).map
      (fun r => r.key.ident) = st.objects.map fun o => o.mapKey.ident := by
    rw [requests, List.flatMap_map, List.map_flatMap, objects, List.map_flatMap]
    refine List.flatMap_congr fun d hd => ?_
    rw [(d.request_eq listId fun o ho => hnonempty o (List.mem_flatMap.mpr ⟨d, hd, ho⟩)).2,
      ← d.map_object_items, List.map_map, List.map_map]
    rfl
  have hdue : ParityChunkBuffer.Due b₁ o.mapKey (0 +
      (((st.requests listId).flatMap SealRequest.records).map
        fun r => r.key.ident).count o.mapKey.ident) := by
    rw [hlist]
    exact Or.inr (Or.inr (by omega))
  rcases hdue.receiveAll_seals hseals with hp | ⟨-, hn⟩ | hn
  · exact hp (hsettled.pending o ho)
  · omega
  · omega

/-- The parity server ends up with the encoding of the chunks in every order of the messages, if
and only if every key can be told apart from all others. -/
theorem settled_iff_keysApart (st : Stripes c) (listId parity : ℕ) :
    (∀ ms : List Message, ms.Perm (st.messages listId) →
      ∃ b, (ParityChunkBuffer.fresh c listId parity).receiveAll ms = some b ∧
        st.Settled parity b) ↔ st.KeysApart :=
  ⟨keysApart_of_settled, fun h _ hms => settled_of_perm h listId parity hms⟩

/-- The first split of an object of 21 bytes, in a chunk of its own. -/
def sampleSplit (stripeId : ℕ) (key : List UInt8) (h : key.length = 8) :
    DataChunk GlobalConfig.smallest where
  stripeId := stripeId
  chunkId := 0
  objects := [{
    key := key
    valueSize := 21
    splitOffset := 0
    payload := List.replicate 17 0x76
    length_key := by rw [h]; decide
    valueSize_lt := by decide
    splitOffset_lt := fun _ => by decide
    splitOffset_eq := fun _ => rfl
    room := fun _ => by rw [h]; decide
    length_payload := by rw [h]; decide }]
  fits := by
    rw [layout_cons, layout_nil, List.append_nil]
    exact Object.size_le _

/-- Two objects whose keys begin with NUL and have the same hash. -/
def sampleStripes : Stripes (.raid5 2 : Coding GlobalConfig.smallest) where
  chunks := [sampleSplit 0 [0, 0x6d, 0x6d, 0x6d, 0x6d, 0x6d, 0x6d, 0x6d] rfl,
    sampleSplit 1 [0, 0x70, 0x74, 0x62, 0x68, 0x67, 0x6f, 0x6f] rfl]
  ids := by decide
  chunkId_lt := by decide

/-- The SET of the second object is taken for a repetition of the first one. -/
theorem not_settled_of_equal_ident :
    ¬ ∀ ms : List Message, ms.Perm (sampleStripes.messages 0) →
      ∃ b, (ParityChunkBuffer.fresh (.raid5 2) 0 0).receiveAll ms = some b ∧
        sampleStripes.Settled 0 b := by
  intro h
  have hnodup := (keysApart_of_settled h).2
  revert hnodup
  decide

end Stripes

end MemEC.Server
