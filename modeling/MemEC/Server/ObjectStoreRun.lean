import MemEC.Server.ObjectStore
import MemEC.Server.UpdateRequest

/-!
# Runs of a data server

Every run of SET, GET, UPDATE and seal requests at a data server is one of a map
from keys to objects: a GET is answered with the object that was set last under
the key, with the updates since, however often chunks have been sealed and
entries displaced in between.

The log of the data chunk buffer carries the proof. It has an entry for every
object in a chunk. The key map points to the entries of the objects in the map.
-/

namespace MemEC.Server

open MemEC.Lib MemEC.Common KeyValue LargeObjectUtil

variable {cfg : GlobalConfig} {shape : IndexShape}

namespace ObjectStore

open CuckooHash Slots

variable {n0 : ℕ} {used0 : List ℕ} {s s' : ObjectStore cfg shape} {t : ObjectMap cfg}
  {log : DataServer.SetLog cfg} {p q : KeyMetadata × Object cfg} {key : Key} {rand : ℕ → ℕ}

/-! ## The memory of the pool -/

theorem memory_address (s : ObjectStore cfg shape) (c : ℕ) {i : ℕ} (hi : i < cfg.chunkSize) :
    s.memory (s.startAddress + c * cfg.slotSize + 8 + i) = (s.server.pool.chunk c).data i := by
  have hslot : cfg.slotSize = 8 + cfg.chunkSize := rfl
  have hdiff : s.startAddress + c * cfg.slotSize + 8 + i - s.startAddress =
      (8 + i) + cfg.slotSize * c := by
    rw [Nat.mul_comm]
    omega
  have hdiv : ((8 + i) + cfg.slotSize * c) / cfg.slotSize = c := by
    rw [Nat.add_mul_div_left _ _ (by omega), Nat.div_eq_of_lt (by omega), Nat.zero_add]
  have hmod : ((8 + i) + cfg.slotSize * c) % cfg.slotSize = 8 + i := by
    rw [Nat.add_mul_mod_self_left, Nat.mod_eq_of_lt (by omega)]
  rw [memory, hdiff, hdiv, hmod, if_neg (by omega), Nat.add_sub_cancel_left]

theorem address_ne_zero (s : ObjectStore cfg shape) (md : KeyMetadata) : s.address md ≠ 0 := by
  unfold address
  omega

/-- Every entry of the log can be read at its address. -/
theorem memory_holds (hi : s.server.Inv n0 used0 log) (hp : p ∈ log) :
    s.memory.Holds (s.address p.1) p.2.bytes := by
  obtain ⟨hholds, hfits⟩ := hi.holds_object hp
  refine Memory.holds_iff.mpr fun j hj => ?_
  have hlt : p.1.offset + j < cfg.chunkSize := by
    have hsize : p.2.size = p.2.bytes.length := rfl
    omega
  rw [address, Nat.add_assoc _ p.1.offset j, s.memory_address _ hlt]
  exact Memory.holds_iff.mp hholds j hj

theorem key_eq (hi : s.server.Inv n0 used0 log) (hp : p ∈ log) :
    KeyValue.key cfg s.memory (s.address p.1) = p.2.mapKey := by
  have hholds := memory_holds hi hp
  rw [KeyValue.key, Object.deserialize_eq hholds]
  exact Object.ofMemory_eq hholds

/-- `getChunk` comes back from the address of an object to its chunk. -/
theorem getChunk_address (hi : s.server.Inv n0 used0 log) (hp : p ∈ log) :
    s.getChunk (s.address p.1) = (p.1.chunk, p.1.offset) := by
  have hfits := (hi.holds_object hp).2
  have hsize := p.2.le_size
  have hslot : cfg.slotSize = 8 + cfg.chunkSize := rfl
  have hchunk := cfg.chunkSize_le
  have hdiff : s.startAddress + p.1.chunk * cfg.slotSize + 8 + p.1.offset - s.startAddress =
      (8 + p.1.offset) + cfg.slotSize * p.1.chunk := by
    rw [Nat.mul_comm]
    omega
  rw [getChunk, address, hdiff, Nat.add_mul_div_left _ _ (by omega), Nat.div_eq_of_lt (by omega),
    Nat.zero_add, Nat.add_mul_mod_self_left, Nat.mod_eq_of_lt (by omega), u32_eq (by omega),
    sub32_eq (by omega) (by omega), Nat.add_sub_cancel_left]

/-- An address is that of one place. -/
theorem place_of_address (hi : s.server.Inv n0 used0 log) (hp : p ∈ log) (hq : q ∈ log)
    (h : s.address p.1 = s.address q.1) : p = q := by
  have hplace := getChunk_address hi hp
  rw [h, getChunk_address hi hq] at hplace
  obtain ⟨hchunk, hoffset⟩ := Prod.mk.inj hplace
  obtain ⟨before, after, rfl⟩ := List.append_of_mem hp
  obtain ⟨md, o⟩ := p
  rcases DataServer.mem_middle.mp hq with rfl | hq
  · rfl
  · exact absurd ⟨hchunk, hoffset⟩ (hi.place_ne hq)

/-! ## Objects, entries and the log -/

/-- The objects are those in the log whose addresses are in the key map. -/
structure Represents (n0 : ℕ) (used0 : List ℕ) (s : ObjectStore cfg shape)
    (log : DataServer.SetLog cfg) (t : ObjectMap cfg) : Prop where
  buffer : s.server.Inv n0 used0 log
  housed : s.keys.buckets.Housed (ownHomes cfg shape s.memory)
  entry : ∀ ptr, s.keys.buckets.Has ptr → ∃ p ∈ log, ptr = s.address p.1
  object : ∀ k o, t k = some o ↔
    ∃ md, (md, o) ∈ log ∧ o.mapKey = k ∧ s.keys.buckets.Has (s.address md)
  single : ∀ p ∈ log, ∀ q ∈ log, s.keys.buckets.Has (s.address p.1) →
    s.keys.buckets.Has (s.address q.1) → p.2.mapKey = q.2.mapKey → p.1 = q.1

theorem Represents.find_ne_none (h : Represents n0 used0 s log t) {o : Object cfg}
    (ho : t key = some o) : s.keys.find cfg s.memory key ≠ none := by
  intro hnone
  obtain ⟨md, hmem, rfl, hne, a, ha⟩ := (h.object key o).mp ho
  have hown := key_eq h.buffer hmem
  have hhome := h.housed a (ha ▸ hne)
  rw [ownHomes, ha, hown] at hhome
  have hequal := find_eq_none hnone hhome (ha ▸ hne)
  rw [isEqual_index, ha, hown] at hequal
  have hself : o.mapKey.equal o.mapKey = true := (Key.equal_iff _ _).mpr ⟨rfl, rfl, rfl⟩
  exact absurd (hself.symm.trans hequal) (by decide)

/-- What is found under a key is the object that the map has under it. -/
theorem Represents.find_some (h : Represents n0 used0 s log t) (hkey : t.Unambiguous key) {ptr : ℕ}
    (hfind : s.keys.find cfg s.memory key = some ptr) :
    ∃ p ∈ log, ptr = s.address p.1 ∧ s.keys.buckets.Has ptr ∧ t p.2.mapKey = some p.2 ∧
      p.2.mapKey = key := by
  obtain ⟨hhas, hequal⟩ := find_eq_some hfind
  obtain ⟨p, hp, rfl⟩ := h.entry ptr hhas
  have hobject : t p.2.mapKey = some p.2 := (h.object _ _).mpr ⟨p.1, hp, rfl, hhas⟩
  rw [isEqual_index, key_eq h.buffer hp] at hequal
  exact ⟨p, hp, rfl, hhas, hobject, hkey p.2 hobject hequal⟩

theorem lookup_eq (keys : CuckooHash shape.toTableShape) (m : Memory) (key : List UInt8) :
    Map.lookup cfg m keys key = (lookupKeys key).findSome? (keys.find cfg m) := by
  have hfirst : splitKey (key ++ [0, 0, 0]) (three_le_append key) = Key.split key 0 :=
    Key.ext rfl rfl
  unfold Map.lookup Map.findObject Map.findLargeObject lookupKeys
  rw [hfirst]
  cases hplain : keys.find cfg m (Key.plain key) with
  | some ptr => simp [hplain]
  | none =>
    by_cases hlen : 3 < key.length
    · rw [dif_pos hlen, dif_pos hlen]
      cases hsplit : keys.find cfg m (splitKey key hlen.le) with
      | some ptr =>
        have hsame : keys.find cfg m ⟨key.length - 3, true, key, by
          rw [Key.extent, if_pos rfl]; omega⟩ = some ptr := hsplit
        simp [hplain, hsame]
      | none =>
        have hsame : keys.find cfg m ⟨key.length - 3, true, key, by
          rw [Key.extent, if_pos rfl]; omega⟩ = none := hsplit
        simp [hplain, hsame]
    · rw [dif_neg hlen, dif_neg hlen]
      simp [hplain]

/-- The lookup of a request finds the entry of the object that the map answers with. -/
theorem Represents.lookup (h : Represents n0 used0 s log t) {key : List UInt8}
    (hkey : ∀ k ∈ lookupKeys key, t.Unambiguous k) :
    (∃ p ∈ log, Map.lookup cfg s.memory s.keys key = some (s.address p.1) ∧
        t.find key = some p.2 ∧ s.keys.buckets.Has (s.address p.1)) ∨
      (Map.lookup cfg s.memory s.keys key = none ∧ t.find key = none) := by
  rw [lookup_eq, ObjectMap.find]
  generalize lookupKeys key = keys at hkey
  induction keys with
  | nil => exact .inr ⟨rfl, rfl⟩
  | cons k keys ih =>
    rw [List.findSome?_cons, List.findSome?_cons]
    cases hfind : s.keys.find cfg s.memory k with
    | some ptr =>
      obtain ⟨p, hp, rfl, hhas, hobject, rfl⟩ := h.find_some (hkey k List.mem_cons_self) hfind
      rw [hobject]
      exact .inl ⟨p, hp, rfl, rfl, hhas⟩
    | none =>
      have hnone : t k = none := by
        by_contra hsome
        obtain ⟨o, ho⟩ := Option.ne_none_iff_exists'.mp hsome
        exact h.find_ne_none ho hfind
      rw [hnone]
      exact ih fun k' hk' => hkey k' (List.mem_cons_of_mem _ hk')

/-! ## GET -/

/-- What a stored object is answered with. -/
theorem resGet_eq {m : Memory} {ptr : ℕ} {o : Object cfg} (h : m.Holds ptr o.bytes) :
    resGet cfg m ptr = ObjectMap.message o := by
  have hl : LargeObjectUtil.isLarge cfg o.key.length o.valueSize = o.isLarge := rfl
  have hvalue := o.holds_payload h
  have hkey : m.read (ptr + 4) o.key.length = o.key := by
    rw [Object.bytes, List.append_assoc, Memory.holds_append, Memory.holds_append,
      Object.length_header, Object.keyBytes, Memory.holds_append] at h
    exact h.2.1.1
  unfold resGet Client.generateKeyValueHeader ObjectMap.message
  rw [Object.deserialize_eq h]
  dsimp only
  rw [hl, hkey]
  cases hlarge : o.isLarge with
  | false =>
    have hpayload := o.payload_of_plain hlarge
    have hoffset := o.splitOffset_eq hlarge
    rw [if_neg Bool.false_ne_true, if_neg Bool.false_ne_true, if_pos (.inl rfl), hoffset,
      Memory.take_read _ _ le_rfl, ← hpayload, hvalue]
  | true =>
    have hroom := o.room hlarge
    have hbig := o.isLarge_iff.mp hlarge
    have hpayload := o.payload_of_large hlarge
    have hsplit := splitSize_of_room cfg (hl.trans hlarge) hroom.le
    have hoffset := o.splitOffset_lt_two_pow
    have hlength := o.length_payload
    rw [payloadSize, if_pos (hl.trans hlarge)] at hlength
    rw [if_pos rfl, if_pos rfl, if_neg (by omega), ← hlength, Nat.mod_eq_of_lt (by omega),
      Memory.take_read _ _ (by omega), hvalue]

/-! ## SET -/

/-- An entry at the end of the log has a place of its own. -/
theorem address_ne_of_mem (hi : s.server.Inv n0 used0 (log ++ [q])) (hp : p ∈ log) :
    s.address p.1 ≠ s.address q.1 := by
  intro h
  have hq : q ∈ log ++ [q] := List.mem_append_right _ List.mem_cons_self
  have hplace := getChunk_address hi (List.mem_append_left [q] hp)
  rw [h, getChunk_address hi hq] at hplace
  obtain ⟨hchunk, hoffset⟩ := Prod.mk.inj hplace
  obtain ⟨md, o⟩ := q
  exact hi.place_ne (by rwa [List.append_nil]) ⟨hchunk.symm, hoffset.symm⟩

/-- An object that is put into a chunk, with or without an entry in the key map. -/
theorem Represents.store (h : Represents n0 used0 s log t) {o : Object cfg} {server : DataServer cfg}
    {md : KeyMetadata} {keys : CuckooHash shape.toTableShape} {ok : Bool}
    (hbuffer : server.Inv n0 used0 (log ++ [(md, o)])) (hnone : t o.mapKey = none)
    (hhoused : keys.buckets.Housed (ownHomes cfg shape { s with server }.memory))
    (hhas : ∀ ptr, keys.buckets.Has ptr ↔
      s.keys.buckets.Has ptr ∨ (ok = true ∧ ptr = s.address md)) :
    Represents n0 used0 { s with server, keys } (log ++ [(md, o)])
      (if ok then Function.update t o.mapKey (some o) else t) := by
  have hfresh : ∀ p ∈ log, s.address p.1 ≠ s.address md := fun p hp =>
    address_ne_of_mem (s := { s with server }) (q := (md, o)) hbuffer hp
  have hold : ¬s.keys.buckets.Has (s.address md) := by
    intro hmd
    obtain ⟨p, hp, heq⟩ := h.entry _ hmd
    exact hfresh p hp heq.symm
  have hentry : ∀ p ∈ log, (keys.buckets.Has (s.address p.1) ↔
      s.keys.buckets.Has (s.address p.1)) := by
    intro p hp
    rw [hhas]
    exact or_iff_left fun hp' => hfresh p hp hp'.2
  have hnew : keys.buckets.Has (s.address md) ↔ ok = true := by
    rw [hhas]
    exact ⟨fun hor => hor.elim (fun hmd => absurd hmd hold) And.left, fun hok => .inr ⟨hok, rfl⟩⟩
  have hcases : ∀ p ∈ log ++ [(md, o)], p ∈ log ∨ p = (md, o) := by
    intro p hp
    exact (List.mem_append.mp hp).imp id List.mem_singleton.mp
  refine ⟨hbuffer, hhoused, ?_, ?_, ?_⟩
  · intro ptr hptr
    rcases (hhas ptr).mp hptr with hptr | ⟨-, rfl⟩
    · obtain ⟨p, hp, rfl⟩ := h.entry ptr hptr
      exact ⟨p, List.mem_append_left _ hp, rfl⟩
    · exact ⟨(md, o), List.mem_append_right _ List.mem_cons_self, rfl⟩
  · intro k o'
    have hpast : (∃ md', (md', o') ∈ log ∧ o'.mapKey = k ∧
        keys.buckets.Has (s.address md')) ↔ t k = some o' := by
      rw [h.object]
      exact exists_congr fun md' => and_congr_right fun hmem =>
        and_congr_right fun _ => hentry (md', o') hmem
    have hsplit : (∃ md', (md', o') ∈ log ++ [(md, o)] ∧ o'.mapKey = k ∧
        keys.buckets.Has (s.address md')) ↔ t k = some o' ∨ (o' = o ∧ o.mapKey = k ∧ ok = true) := by
      rw [← hpast]
      constructor
      · rintro ⟨md', hmem, hk, hmd⟩
        rcases hcases _ hmem with hmem | heq
        · exact .inl ⟨md', hmem, hk, hmd⟩
        · obtain ⟨rfl, rfl⟩ := Prod.mk.inj heq
          exact .inr ⟨rfl, hk, hnew.mp hmd⟩
      · rintro (⟨md', hmem, hk, hmd⟩ | ⟨rfl, hk, hok⟩)
        · exact ⟨md', List.mem_append_left _ hmem, hk, hmd⟩
        · exact ⟨md, List.mem_append_right _ List.mem_cons_self, hk, hnew.mpr hok⟩
    refine Iff.trans ?_ hsplit.symm
    cases ok with
    | false => simp
    | true =>
      rw [if_pos rfl, Function.update_apply]
      split_ifs with hk
      · rw [hk, hnone]
        simp [eq_comm]
      · simp [Ne.symm hk]
  · intro p hp q hq hhasp hhasq hkey
    have hobject : ∀ p ∈ log, keys.buckets.Has (s.address p.1) → p.2.mapKey ≠ o.mapKey := by
      intro p hp hhasp heq
      have hsome := (h.object p.2.mapKey p.2).mpr ⟨p.1, hp, rfl, (hentry p hp).mp hhasp⟩
      rw [heq, hnone] at hsome
      cases hsome
    rcases hcases p hp with hp | rfl <;> rcases hcases q hq with hq | rfl
    · exact h.single p hp q hq ((hentry p hp).mp hhasp) ((hentry q hq).mp hhasq) hkey
    · exact absurd hkey (hobject p hp hhasp)
    · exact absurd hkey.symm (hobject q hq hhasq)
    · rfl

/-- The hash of a displaced entry is recomputed from the bytes of the object. -/
theorem relocationHash_congr {m m' : Memory} {ptr : ℕ} {o : Object cfg} (h : m.Holds ptr o.bytes)
    (h' : m'.Holds ptr o.bytes) : relocationHash cfg shape.toTableShape m' ptr =
      relocationHash cfg shape.toTableShape m ptr := by
  have hsize : o.size = o.bytes.length := rfl
  have hle := o.le_size
  have hbytes : ∀ i, ptr ≤ i → i < ptr + o.bytes.length → m' i = m i := by
    intro i hlo hhi
    obtain ⟨j, rfl⟩ := Nat.exists_eq_add_of_le hlo
    rw [Memory.holds_iff.mp h j (by omega), Memory.holds_iff.mp h' j (by omega)]
  unfold relocationHash
  rw [if_pos shape.keySize_eq, if_pos shape.keySize_eq, Object.deserialize_eq h,
    Object.deserialize_eq h']
  dsimp only
  refine congrArg HashFunc.hash (Memory.read_congr fun i hlo hhi => hbytes i ?_ ?_)
  · split_ifs at hlo <;> omega
  · split_ifs at hhi <;> omega

theorem largeFaithful_congr {m m' : Memory} {keys : CuckooHash shape.toTableShape} {i : ℕ}
    (hkey : ∀ ptr, keys.buckets.Has ptr → KeyValue.key cfg m' ptr = KeyValue.key cfg m ptr)
    (hhash : ∀ ptr, keys.buckets.Has ptr → relocationHash cfg shape.toTableShape m' ptr =
      relocationHash cfg shape.toTableShape m ptr)
    (h : LargeFaithful cfg shape m keys i) : LargeFaithful cfg shape m' keys i := by
  have halt : ∀ a, keys.buckets a ≠ 0 → ∀ b, altOf cfg shape.toTableShape m' (keys.buckets a) b =
      altOf cfg shape.toTableShape m (keys.buckets a) b := by
    intro a ha b
    rw [altOf, altOf, hhash _ ⟨ha, a, rfl⟩]
  intro a hreach ha hlarge b hb
  have hreach' : Reach (altOf cfg shape.toTableShape m) keys.buckets i a.1 := by
    refine Relation.ReflTransGen.mono ?_ _ _ hreach
    rintro b c ⟨j, hj, rfl⟩
    exact ⟨j, hj, halt (b, j) hj b⟩
  rw [ownHomes, hkey _ ⟨ha, a, rfl⟩] at hb ⊢
  rw [hkey _ ⟨ha, a, rfl⟩] at hlarge
  rw [halt a ha]
  exact h a hreach' ha hlarge b hb

/-- One SET. -/
theorem Represents.set (h : Represents n0 used0 s log t) {o : Object cfg} {result : SetResult}
    (hallowed : s.Allowed t (.set o)) (hset : s.handleSetRequest rand o = some (s', result)) :
    t.Right (.set o) (.set result) ∧
      ∃ log', Represents n0 used0 s' log' (t.next (.set o) (.set result)) := by
  obtain ⟨hvisible, hkey, hsplit, hdisplaces⟩ := hallowed
  unfold handleSetRequest Map.findObject at hset
  split_ifs at hset with hfound
  · cases hset
    obtain ⟨hplain, hsome⟩ := hfound
    obtain ⟨ptr, hptr⟩ := Option.isSome_iff_exists.mp hsome
    rw [Object.mapKey_of_plain hplain] at hkey
    obtain ⟨p, -, -, -, hobject, hp⟩ := h.find_some hkey hptr
    rw [hp, ← Object.mapKey_of_plain hplain] at hobject
    exact ⟨iff_of_true rfl ⟨hplain, by rw [hobject]; exact Option.some_ne_none _⟩, log, h⟩
  · have hnone : t o.mapKey = none := by
      cases hlarge : o.isLarge with
      | true => exact hsplit hlarge
      | false =>
        by_contra hsome
        obtain ⟨o', ho'⟩ := Option.ne_none_iff_exists'.mp hsome
        have hne := h.find_ne_none ho'
        rw [Object.mapKey_of_plain hlarge] at hne
        exact hfound ⟨hlarge, Option.isSome_iff_ne_none.mpr hne⟩
    cases hserver : s.server.set o.key o.payload o.valueSize o.splitOffset false with
    | none =>
      rw [hserver] at hset
      cases hset
    | some r =>
      obtain ⟨server, md, sealed⟩ := r
      rw [hserver] at hset
      dsimp only at hset
      have hbuffer := (h.buffer.set hvisible hserver).1
      have hmem : (md, o) ∈ log ++ [(md, o)] := List.mem_append_right _ List.mem_cons_self
      have hown := key_eq (s := { s with server }) (p := (md, o)) hbuffer hmem
      have hsame : ∀ ptr, s.keys.buckets.Has ptr →
          KeyValue.key cfg ({ s with server } : ObjectStore cfg shape).memory ptr =
            KeyValue.key cfg s.memory ptr ∧
          relocationHash cfg shape.toTableShape
              ({ s with server } : ObjectStore cfg shape).memory ptr =
            relocationHash cfg shape.toTableShape s.memory ptr := by
        intro ptr hptr
        obtain ⟨p, hp, rfl⟩ := h.entry ptr hptr
        have hp' := List.mem_append_left [(md, o)] hp
        exact ⟨(key_eq (s := { s with server }) hbuffer hp').trans (key_eq h.buffer hp).symm,
          relocationHash_congr (memory_holds h.buffer hp)
            (memory_holds (s := { s with server }) hbuffer hp')⟩
      have hok : InsertOk cfg shape ({ s with server } : ObjectStore cfg shape).memory s.keys
          o.mapKey (s.address md) :=
        ⟨s.address_ne_zero md, congrArg Key.hashValue hown.symm, fun hfull₁ hfull₂ =>
          largeFaithful_congr (fun ptr hptr => (hsame ptr hptr).1)
            (fun ptr hptr => (hsame ptr hptr).2) (hdisplaces hfull₁ hfull₂)⟩
      obtain ⟨keys, ok, hinsert, hhoused, hhas⟩ := hok.spec rand
        (housed_congr h.housed fun ptr hptr => (hsame ptr hptr).1)
      have hstore := h.store hbuffer hnone hhoused hhas
      have hins : s.keys.insert cfg ({ s with server } : ObjectStore cfg shape).memory rand
          o.mapKey (({ s with server } : ObjectStore cfg shape).address md) = some (keys, ok) :=
        hinsert
      rw [hins] at hset
      cases ok with
      | true =>
        cases hset
        exact ⟨iff_of_false (by simp) fun hright => hright.2 hnone, _, hstore⟩
      | false =>
        cases hset
        exact ⟨iff_of_false (by simp) fun hright => hright.2 hnone, _, hstore⟩

/-! ## UPDATE and seal -/

theorem modify_congr {pool : ChunkPool cfg} {c : ℕ} {f g : Chunk → Chunk}
    (h : f (pool.chunk c) = g (pool.chunk c)) : pool.modify c f = pool.modify c g := by
  have hchunks : pool.chunks.modify c f = pool.chunks.modify c g := by
    refine List.ext_getElem? fun i => ?_
    rw [List.getElem?_modify, List.getElem?_modify]
    cases hi : pool.chunks[i]? with
    | none => rfl
    | some chunk =>
      split_ifs with hc
      · subst hc
        have hchunk : pool.chunk c = chunk := by
          rw [ChunkPool.chunk, List.getD_eq_getElem?_getD, hi, Option.getD_some]
        rw [hchunk] at h
        exact congrArg some h
      · rfl
  unfold ChunkPool.modify
  simp only [hchunks]

/-- An update replaces the object by the updated one. -/
theorem updateObject_eq (hi : s.server.Inv n0 used0 log) {md : KeyMetadata} {o : Object cfg}
    (hmem : (md, o) ∈ log) {offset : ℕ} {bs : List UInt8}
    (hfit : offset + bs.length ≤ o.payload.length) :
    s.updateObject (s.address md) offset bs = { s with server := { s.server with
      pool := s.server.pool.modify md.chunk fun chunk =>
        { chunk with data := chunk.data.write md.offset (o.update offset bs).bytes } } } := by
  obtain ⟨hholds, hend⟩ := hi.holds_object hmem
  have hchunk := getChunk_address hi hmem
  have hsize := o.size_eq
  have hlength := o.length_keyBytes
  have hcs := cfg.chunkSize_le
  have hl : LargeObjectUtil.isLarge cfg o.key.length o.valueSize = o.isLarge := rfl
  have hoffset : getChunkUpdateOffset md.offset o.key.length offset o.isLarge =
      md.offset + 4 + o.keyBytes.length + offset := by
    dsimp only at hend
    unfold getChunkUpdateOffset
    rw [u32_eq (by omega)]
    omega
  unfold updateObject
  rw [Object.deserialize_eq (memory_holds hi hmem)]
  dsimp only at hchunk ⊢
  rw [hchunk, hl, hoffset]
  have hsame := @modify_congr cfg s.server.pool md.chunk
    (fun chunk => { chunk with data := (ChunkUtil.computeDelta chunk.data bs
      (md.offset + 4 + o.keyBytes.length + offset) bs.length true).2 })
    (fun chunk => { chunk with data := chunk.data.write md.offset (o.update offset bs).bytes })
    (by rw [ChunkUtil.computeDelta_eq_write, Object.write_value hholds hfit])
  rw [hsame]

/-- One update of an object in the key map. -/
theorem Represents.update (h : Represents n0 used0 s log t) {md : KeyMetadata} {o : Object cfg}
    (hmem : (md, o) ∈ log) (hhas : s.keys.buckets.Has (s.address md)) {offset : ℕ}
    {bs : List UInt8} (hfit : offset + bs.length ≤ o.payload.length) :
    ∃ log', Represents n0 used0 (s.updateObject (s.address md) offset bs) log'
      (Function.update t o.mapKey (some (o.update offset bs))) := by
  rw [updateObject_eq h.buffer hmem hfit]
  obtain ⟨before, after, rfl⟩ := List.append_of_mem hmem
  have hbuffer := h.buffer.replace (o.update_size offset bs) fun hvisible => hvisible
  have hother : ∀ p ∈ before ++ after, p.1 ≠ md := by
    rintro p hp rfl
    exact h.buffer.place_ne hp ⟨rfl, rfl⟩
  have hold : ∀ p ∈ before ++ after, p ∈ before ++ (md, o) :: after :=
    fun p hp => DataServer.mem_middle.mpr (.inr hp)
  refine ⟨before ++ (md, o.update offset bs) :: after, hbuffer, ?_, ?_, ?_, ?_⟩
  · refine housed_congr h.housed fun ptr hptr => ?_
    obtain ⟨p, hp, rfl⟩ := h.entry ptr hptr
    rw [key_eq h.buffer hp]
    rcases DataServer.mem_middle.mp hp with rfl | hp
    · exact key_eq (s := { s with server := _ }) (p := (md, o.update offset bs)) hbuffer
        (DataServer.mem_middle.mpr (.inl rfl))
    · exact key_eq (s := { s with server := _ }) hbuffer (DataServer.mem_middle.mpr (.inr hp))
  · intro ptr hptr
    obtain ⟨p, hp, rfl⟩ := h.entry ptr hptr
    rcases DataServer.mem_middle.mp hp with rfl | hp
    · exact ⟨(md, o.update offset bs), DataServer.mem_middle.mpr (.inl rfl), rfl⟩
    · exact ⟨p, DataServer.mem_middle.mpr (.inr hp), rfl⟩
  · intro k o'
    rw [Function.update_apply]
    split_ifs with hk
    · subst hk
      rw [Option.some_inj]
      constructor
      · rintro rfl
        exact ⟨md, DataServer.mem_middle.mpr (.inl rfl), rfl, hhas⟩
      · rintro ⟨md', hmem', hkey, hhas'⟩
        rcases DataServer.mem_middle.mp hmem' with heq | hp
        · exact (Prod.mk.inj heq).2.symm
        · exact absurd (h.single _ (hold _ hp) _ hmem hhas' hhas hkey) (hother _ hp)
    · rw [h.object]
      refine exists_congr fun md' => ?_
      constructor
      · rintro ⟨hmem', hkey, hhas'⟩
        rcases DataServer.mem_middle.mp hmem' with heq | hp
        · exact absurd ((Prod.mk.inj heq).2 ▸ hkey.symm) hk
        · exact ⟨DataServer.mem_middle.mpr (.inr hp), hkey, hhas'⟩
      · rintro ⟨hmem', hkey, hhas'⟩
        rcases DataServer.mem_middle.mp hmem' with heq | hp
        · have hkey' : o'.mapKey = o.mapKey := by rw [(Prod.mk.inj heq).2, Object.update_mapKey]
          exact absurd (hkey.symm.trans hkey') hk
        · exact ⟨hold _ hp, hkey, hhas'⟩
  · have hback : ∀ p ∈ before ++ (md, o.update offset bs) :: after,
        ∃ q ∈ before ++ (md, o) :: after, q.1 = p.1 ∧ q.2.mapKey = p.2.mapKey := by
      intro p hp
      rcases DataServer.mem_middle.mp hp with rfl | hp
      · exact ⟨(md, o), hmem, rfl, rfl⟩
      · exact ⟨p, hold p hp, rfl, rfl⟩
    intro p hp q hq hhasp hhasq hkey
    obtain ⟨p', hp', hp1, hp2⟩ := hback p hp
    obtain ⟨q', hq', hq1, hq2⟩ := hback q hq
    rw [← hp1, ← hq1]
    refine h.single p' hp' q' hq' ?_ ?_ (by rw [hp2, hq2, hkey])
    · rw [hp1]
      exact hhasp
    · rw [hq1]
      exact hhasq

/-- Sealing changes no object. -/
theorem Represents.seal (h : Represents n0 used0 s log t) {server : DataServer cfg}
    (hseal : s.server.seal = some server) : Represents n0 used0 { s with server } log t := by
  have hbuffer := h.buffer.seal hseal
  refine ⟨hbuffer, housed_congr h.housed fun ptr hptr => ?_, h.entry, h.object, h.single⟩
  obtain ⟨p, hp, rfl⟩ := h.entry ptr hptr
  rw [key_eq h.buffer hp]
  exact key_eq (s := { s with server }) hbuffer hp

/-! ## Runs -/

variable (cfg shape) in
/-- Every step of a data server is one of the map. -/
theorem simulates (n0 : ℕ) (used0 : List ℕ) (rand : ℕ → ℕ) :
    Simulates (step rand) (ObjectMap.spec cfg) Allowed
      fun (s : ObjectStore cfg shape) t => ∃ log, Represents n0 used0 s log t where
  step := by
    rintro s t req s' r ⟨log, h⟩ hallowed hstep
    cases req with
    | set o =>
      obtain ⟨⟨s₁, result⟩, hset, heq⟩ := Option.map_eq_some_iff.mp hstep
      obtain ⟨rfl, rfl⟩ := Prod.mk.inj heq
      exact h.set hallowed hset
    | get key =>
      cases hstep
      refine ⟨?_, log, h⟩
      have hget : s.handleGetRequest key = (t.find key).map ObjectMap.message := by
        unfold handleGetRequest
        rcases h.lookup hallowed with ⟨p, hp, hlookup, hfind, -⟩ | ⟨hlookup, hfind⟩
        · rw [hlookup, hfind, Option.map_some, Option.map_some,
            resGet_eq (memory_holds h.buffer hp)]
        · rw [hlookup, hfind]
          rfl
      exact hget
    | update key valueUpdateOffset valueUpdate =>
      obtain ⟨hkeys, hinside⟩ := hallowed
      obtain ⟨rfl, rfl⟩ := Prod.mk.inj (Option.some.inj hstep)
      unfold handleUpdateRequest
      rcases h.lookup hkeys with ⟨⟨md, o⟩, hp, hlookup, hfind, hhas⟩ | ⟨hlookup, hfind⟩
      · rw [hlookup]
        refine ⟨(congrArg Option.isSome hfind).symm, ?_⟩
        simp only [ObjectMap.spec, ObjectMap.next_update_some hfind]
        exact h.update hp hhas (hinside o hfind)
      · rw [hlookup]
        refine ⟨(congrArg Option.isSome hfind).symm, log, ?_⟩
        simp only [ObjectMap.spec, ObjectMap.next_update_none hfind]
        exact h
    | sealAll =>
      obtain ⟨server, hseal, heq⟩ := Option.map_eq_some_iff.mp hstep
      obtain ⟨rfl, rfl⟩ := Prod.mk.inj heq
      exact ⟨trivial, log, h.seal hseal⟩

/-- Before the first request. -/
def start (shape : IndexShape) (server : DataServer cfg) (startAddress : ℕ) :
    ObjectStore cfg shape := ⟨server, .init shape.toTableShape, startAddress⟩

theorem Represents.start {server : DataServer cfg} (h : server.Inv n0 used0 []) (startAddress : ℕ) :
    Represents n0 used0 (start shape server startAddress) [] fun _ => none where
  buffer := h
  housed _ ha := absurd rfl ha
  entry := by
    rintro ptr ⟨hne, a, rfl⟩
    exact absurd rfl hne
  object k o := by simp
  single p hp := absurd hp List.not_mem_nil

/-- The objects are stored whole, under keys without a NUL byte. -/
def PlainMap (t : ObjectMap cfg) : Prop :=
  ∀ k o, t k = some o → o.isLarge = false ∧ (0 : UInt8) ∉ o.key

/-- Requests for plain objects. -/
def AllowedPlain (_ : ObjectStore cfg shape) (t : ObjectMap cfg) : ObjectRequest cfg → Prop
  | .set o => o.Visible ∧ o.isLarge = false ∧ (0 : UInt8) ∉ o.key
  | .get key => (0 : UInt8) ∉ key
  | .update key valueUpdateOffset valueUpdate => (0 : UInt8) ∉ key ∧
      ∀ o ∈ t.find key, valueUpdateOffset + valueUpdate.length ≤ o.payload.length
  | .sealAll => True

instance (s : ObjectStore cfg shape) (t : ObjectMap cfg) :
    ∀ req, Decidable (s.AllowedPlain t req)
  | .set _ => inferInstanceAs (Decidable (_ ∧ _ ∧ _))
  | .get _ => inferInstanceAs (Decidable (_ ∉ _))
  | .update _ _ _ => inferInstanceAs (Decidable (_ ∧ _))
  | .sealAll => inferInstanceAs (Decidable True)

theorem PlainMap.next (h : PlainMap t) {req : ObjectRequest cfg} (hreq : s.AllowedPlain t req)
    (response : ObjectResponse) : PlainMap (t.next req response) := by
  have hupdate : ∀ o : Object cfg, o.isLarge = false ∧ (0 : UInt8) ∉ o.key →
      PlainMap (Function.update t o.mapKey (some o)) := by
    intro o ho k o' hk
    rw [Function.update_apply] at hk
    split_ifs at hk
    · exact Option.some.inj hk ▸ ho
    · exact h k o' hk
  cases req with
  | set o =>
    cases response with
    | set result =>
      cases result with
      | stored => exact hupdate o hreq.2
      | existing => exact h
      | dropped => exact h
    | get message => exact h
    | update success => exact h
    | sealAll => exact h
  | get key => exact h
  | update key valueUpdateOffset valueUpdate =>
    cases hfind : t.find key with
    | none =>
      rw [ObjectMap.next_update_none hfind]
      exact h
    | some o =>
      obtain ⟨k, -, hk⟩ := List.exists_of_findSome?_eq_some hfind
      rw [ObjectMap.next_update_some hfind]
      exact hupdate (o.update valueUpdateOffset valueUpdate) (h k o hk)
  | sealAll => exact h

/-- Two objects, of which the first is set again and updated. The third object fills the chunk, and
the next one is sealed by hand. -/
def sampleRequests : List (ObjectRequest GlobalConfig.smallest) :=
  [.set (ChunkHistory.sampleObject 0x65), .set (ChunkHistory.sampleObject 0x66),
    .set (ChunkHistory.sampleObject 0x65), .update [0x65, 0x31] 1 [0x77],
    .set (ChunkHistory.sampleObject 0x67), .set (ChunkHistory.sampleObject 0x68), .sealAll,
    .get [0x65, 0x31]]

end ObjectStore

end MemEC.Server
