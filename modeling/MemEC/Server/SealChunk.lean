import MemEC.Common.ChunkLayout
import MemEC.Lib.Lists
import MemEC.Lib.Run

/-!
# SEAL_CHUNK requests

When a data chunk is sealed, the data server tells the parity servers which
objects it holds. The request is produced by following `ChunkUtil::next`
through the chunk, with one record for each object: its key size, its offset,
whether it is a split, and its key.

`next` takes a key size of zero for the end of the objects. A deleted object
leaves a header with key size zero behind, so the objects that were stored
behind it are not listed.
-/

namespace MemEC.Server

open MemEC.Lib MemEC.Common KeyValue ChunkUtil

variable (cfg : GlobalConfig)

/-- A SEAL_CHUNK request, without the protocol header. -/
structure SealRequest where
  listId : ℕ
  stripeId : ℕ
  chunkId : ℕ
  count : ℕ
  data : List UInt8

/-- A record of the request as it is sent. -/
def sealRecordBytes (keySize offset : ℕ) (isLarge : Bool) (key : List UInt8) : List UInt8 :=
  UInt8.ofNat keySize :: (beBytes 4 offset ++ (if isLarge then 1 else 0) :: key)

/-- The loop of `ServerProtocol::reqSealChunk`, with the number of records and the bytes that
have been written. -/
def reqSealChunkLoop (m : Memory) : ℕ → ℕ → ℕ × List UInt8 → ℕ × List UInt8
  | 0, _, acc => acc
  | fuel + 1, currentOffset, (count, data) =>
    match next cfg m currentOffset with
    | none => (count, data)
    | some n =>
      reqSealChunkLoop m fuel n.offset (count + 1,
        data ++ sealRecordBytes n.keySize currentOffset n.isLarge
          (m.read n.key (Key.extent n.keySize n.isLarge)))

/-- `ServerProtocol::reqSealChunk`. -/
def reqSealChunk (chunk : Chunk) (startPos : ℕ) : SealRequest :=
  let (count, data) := reqSealChunkLoop cfg chunk.data cfg.chunkSize startPos (0, [])
  ⟨chunk.listId, chunk.stripeId, chunk.chunkId, count, data⟩

/-- A record as the parity server reads it. -/
structure SealRecord where
  key : Key
  offset : ℕ
deriving DecidableEq

/-- The way `ParityChunkBuffer::seal` walks over the records of a request. A record that is longer
than what is left of the data would be read out of bounds; the walk ends with it here. -/
def parseSealData (sealData : Memory) : ℕ → ℕ → ℕ → List SealRecord
  | 0, _, _ => []
  | fuel + 1, ptr, sealDataSize =>
    if sealDataSize = 0 then []
    else
      let keySize := (sealData ptr).toNat
      let offset := sealData.readBe (ptr + 1) 4
      let isLarge := sealData (ptr + 5) != 0
      let extent := 6 + Key.extent keySize isLarge
      ⟨Key.ofMemory sealData (ptr + 6) keySize isLarge, offset⟩ ::
        parseSealData sealData fuel (ptr + extent) (sealDataSize - extent)

/-- The records of a request. -/
def SealRequest.records (r : SealRequest) : List SealRecord :=
  parseSealData (.place 0 r.data) r.data.length 0 r.data.length

variable {cfg}

/-! ## What a request lists -/

/-- The record of a key and an offset, as it is sent. -/
def SealRecord.bytes (r : SealRecord) : List UInt8 :=
  sealRecordBytes r.key.size r.offset r.key.isLarge r.key.data

theorem SealRecord.length_bytes (r : SealRecord) :
    r.bytes.length = 6 + Key.extent r.key.size r.key.isLarge := by
  simp only [bytes, sealRecordBytes, List.length_cons, List.length_append, length_beBytes,
    r.key.length_data]
  omega

theorem SealRecord.length_le_flatMap_bytes (rs : List SealRecord) :
    rs.length ≤ (rs.flatMap bytes).length := by
  induction rs with
  | nil => exact le_rfl
  | cons r rs ih =>
    rw [List.flatMap_cons, List.length_append, length_bytes, List.length_cons]
    omega

/-- The parity server reads the records that were written. -/
theorem parseSealData_of_holds {m : Memory} {ptr fuel : ℕ} {rs : List SealRecord}
    (h : m.Holds ptr (rs.flatMap SealRecord.bytes)) (hsize : ∀ r ∈ rs, r.key.size < 256)
    (hoff : ∀ r ∈ rs, r.offset < 256 ^ 4) (hfuel : rs.length ≤ fuel) :
    parseSealData m fuel ptr (rs.flatMap SealRecord.bytes).length = rs := by
  induction rs generalizing ptr fuel with
  | nil => cases fuel <;> rfl
  | cons r rs ih =>
    obtain ⟨fuel, rfl⟩ := Nat.exists_eq_add_one_of_ne_zero
      (show fuel ≠ 0 by rw [List.length_cons] at hfuel; omega)
    have hlen := r.length_bytes
    rw [List.flatMap_cons, Memory.holds_append] at h
    obtain ⟨h, hrest⟩ := h
    have hkeySize : (m ptr).toNat = r.key.size := by
      rw [(Memory.holds_cons.mp h).1, UInt8.toNat_ofNat']
      exact Nat.mod_eq_of_lt (hsize r List.mem_cons_self)
    have htail := (Memory.holds_cons.mp h).2
    rw [Memory.holds_append, Memory.holds_cons, length_beBytes] at htail
    have hoffset : m.readBe (ptr + 1) 4 = r.offset := htail.1.readBe (hoff r List.mem_cons_self)
    have hlarge : (m (ptr + 5) != 0) = r.key.isLarge := by
      rw [show ptr + 5 = ptr + 1 + 4 from rfl, htail.2.1]
      cases r.key.isLarge <;> rfl
    have hkey : Key.ofMemory m (ptr + 6) r.key.size r.key.isLarge = r.key := by
      refine Key.ext rfl ?_
      have hb : m.read (ptr + 6) r.key.data.length = r.key.data := htail.2.2
      rwa [r.key.length_data] at hb
    have hpos : (r.bytes ++ rs.flatMap SealRecord.bytes).length ≠ 0 := by
      rw [List.length_append]
      omega
    simp only [List.flatMap_cons, parseSealData, if_neg hpos, hkeySize, hoffset, hlarge, hkey]
    rw [List.length_append, hlen, Nat.add_sub_cancel_left, ← hlen,
      ih hrest (fun q hq => hsize q (List.mem_cons_of_mem _ hq))
        (fun q hq => hoff q (List.mem_cons_of_mem _ hq)) (Nat.le_of_succ_le_succ hfuel)]

variable (cfg) in
/-- The objects that `next` finds from `ptr` on. -/
def listed (m : Memory) : ℕ → ℕ → List SealRecord
  | 0, _ => []
  | fuel + 1, ptr =>
    match next cfg m ptr with
    | none => []
    | some n => ⟨.ofMemory m n.key n.keySize n.isLarge, ptr⟩ :: listed m fuel n.offset

theorem reqSealChunkLoop_eq (m : Memory) (fuel ptr : ℕ) (acc : ℕ × List UInt8) :
    reqSealChunkLoop cfg m fuel ptr acc = (acc.1 + (listed cfg m fuel ptr).length,
      acc.2 ++ (listed cfg m fuel ptr).flatMap SealRecord.bytes) := by
  induction fuel generalizing ptr acc with
  | zero => simp [reqSealChunkLoop, listed]
  | succ fuel ih =>
    rw [reqSealChunkLoop, listed]
    cases next cfg m ptr with
    | none => simp
    | some n =>
      simp only [ih, List.length_cons, List.flatMap_cons, List.append_assoc]
      rw [Nat.add_assoc, Nat.add_comm 1]
      rfl

/-- A listed key is not empty, and its size and offset fit into their fields. -/
theorem listed_bounds {m : Memory} {fuel ptr : ℕ} {r : SealRecord}
    (h : r ∈ listed cfg m fuel ptr) :
    0 < r.key.size ∧ r.key.size < 256 ∧ r.offset < 256 ^ 4 := by
  induction fuel generalizing ptr with
  | zero => cases h
  | succ fuel ih =>
    rw [listed] at h
    cases hn : next cfg m ptr with
    | none =>
      rw [hn] at h
      cases h
    | some n =>
      rw [hn] at h
      rcases List.mem_cons.mp h with rfl | h
      · have hc := cfg.chunkSize_le
        obtain ⟨hlt, hk, hpos⟩ := next_some hn
        have hbyte := (m ptr).toNat_lt
        simp only [Key.ofMemory]
        omega
      · exact ih h

/-- What a request says about a chunk, whatever is in the chunk. -/
theorem reqSealChunk_eq (chunk : Chunk) :
    (reqSealChunk cfg chunk 0).count = (listed cfg chunk.data cfg.chunkSize 0).length ∧
      (reqSealChunk cfg chunk 0).records = listed cfg chunk.data cfg.chunkSize 0 := by
  have hr : reqSealChunk cfg chunk 0 = ⟨chunk.listId, chunk.stripeId, chunk.chunkId,
      (listed cfg chunk.data cfg.chunkSize 0).length,
      (listed cfg chunk.data cfg.chunkSize 0).flatMap SealRecord.bytes⟩ := by
    simp only [reqSealChunk, reqSealChunkLoop_eq, Nat.zero_add, List.nil_append]
  rw [hr]
  refine ⟨rfl, ?_⟩
  exact parseSealData_of_holds (Memory.holds_write _ _ _) (fun r h => (listed_bounds h).2.1)
    (fun r h => (listed_bounds h).2.2) (SealRecord.length_le_flatMap_bytes _)

/-- The record that lists an object. -/
def sealRecord (p : ℕ × Object cfg) : SealRecord := ⟨p.2.mapKey, p.1⟩

theorem listed_layout {m : Memory} {ptr fuel : ℕ}
    {objs : List (Object cfg)} (h : m.Holds ptr (layout objs)) (hk : ∀ o ∈ objs, o.key ≠ [])
    (hfit : ptr + (layout objs).length ≤ cfg.chunkSize)
    (hend : NextEnds cfg m (ptr + (layout objs).length)) (hfuel : objs.length < fuel) :
    listed cfg m fuel ptr = (placed ptr objs).map sealRecord := by
  induction objs generalizing ptr fuel with
  | nil =>
    obtain ⟨fuel, rfl⟩ := Nat.exists_eq_add_one_of_ne_zero (Nat.ne_of_gt hfuel)
    have hn : next cfg m ptr = none := next_of_ends hend
    simp [listed, hn]
  | cons o objs ih =>
    obtain ⟨fuel, rfl⟩ := Nat.exists_eq_add_one_of_ne_zero (Nat.ne_of_gt (Nat.zero_lt_of_lt hfuel))
    rw [layout_cons, Memory.holds_append] at h
    rw [length_layout_cons, ← Nat.add_assoc] at hend hfit
    rw [listed, next_of_holds h.1 (hk o List.mem_cons_self) (by omega)]
    simp only [Object.ofMemory_eq h.1, Object.size]
    rw [ih h.2 (fun x hx => hk x (List.mem_cons_of_mem _ hx)) hfit hend
      (Nat.lt_of_succ_lt_succ hfuel)]
    rfl

/-- The request for a chunk lists the objects in front of the first place where `next` ends. -/
theorem reqSealChunk_of_layout (chunk : Chunk) {objs : List (Object cfg)}
    (h : chunk.data.Holds 0 (layout objs)) (hk : ∀ o ∈ objs, o.key ≠ [])
    (hfit : (layout objs).length ≤ cfg.chunkSize)
    (hend : NextEnds cfg chunk.data (layout objs).length) :
    (reqSealChunk cfg chunk 0).count = objs.length ∧
      (reqSealChunk cfg chunk 0).records = (placed 0 objs).map sealRecord := by
  have hlen := length_lt_of_visible fun o ho => Or.inl (hk o ho)
  have hpos := cfg.le_chunkSize
  have hfuel : objs.length < cfg.chunkSize := by omega
  have hlisted := listed_layout h hk (by omega) (by rwa [Nat.zero_add]) hfuel
  obtain ⟨hcount, hrecords⟩ := reqSealChunk_eq chunk
  rw [hcount, hrecords, hlisted, List.length_map]
  refine ⟨?_, rfl⟩
  have hmap := congrArg List.length (map_snd_placed 0 objs)
  rwa [List.length_map] at hmap

/-! ## Insertions and deletions -/

namespace ChunkHistory

/-- An object that was stored in a chunk. -/
structure Entry (cfg : GlobalConfig) where
  object : Object cfg
  offset : ℕ
  live : Bool

end ChunkHistory

/-- A data chunk with all the objects that were stored in it, in the order of their insertion. -/
structure ChunkHistory (cfg : GlobalConfig) where
  data : Memory
  entries : List (ChunkHistory.Entry cfg)

namespace ChunkHistory

/-- What happens to a chunk. A deletion may or may not ask for the delta. -/
inductive Op (cfg : GlobalConfig)
  | insert (o : Object cfg)
  | delete (i : ℕ) (delta : Option Memory)

/-- One operation. An object that does not fit is not stored in this chunk. -/
def step (h : ChunkHistory cfg) : Op cfg → ChunkHistory cfg
  | .insert o =>
    if dataSize cfg h.data + o.size ≤ cfg.chunkSize then
      let (data, offset) := store cfg h.data o
      ⟨data, h.entries ++ [⟨o, offset, true⟩]⟩
    else h
  | .delete i delta =>
    match h.entries[i]? with
    | none => h
    | some e =>
      if e.live then
        ⟨(deleteObject cfg h.data e.offset delta).1, h.entries.set i { e with live := false }⟩
      else h

/-- A fresh chunk. -/
def init : ChunkHistory cfg := ⟨0, []⟩

/-- The live objects, in the order of their insertion. -/
def live (h : ChunkHistory cfg) : List (Entry cfg) := h.entries.filter Entry.live

/-- The SEAL_CHUNK request lists the live objects and nothing else, each once, with its key and
with the offset at which it stands. -/
def SealListsLive (h : ChunkHistory cfg) : Prop :=
  (∀ e ∈ h.live, h.data.Holds e.offset e.object.bytes) ∧
  ∀ listId stripeId chunkId,
    let r := reqSealChunk cfg ⟨listId, stripeId, chunkId, h.data⟩ 0
    r.count = h.live.length ∧ r.records = h.live.map fun e => ⟨e.object.mapKey, e.offset⟩

/-- No live object lies behind a deleted one, and live objects have a key. -/
def LiveInFront (h : ChunkHistory cfg) : Prop :=
  h.entries.Pairwise (fun a b => b.live = true → a.live = true) ∧
    ∀ e ∈ h.entries, e.live = true → e.object.key ≠ []

instance (h : ChunkHistory cfg) : Decidable h.LiveInFront := inferInstanceAs (Decidable (_ ∧ _))

/-- The live objects stand one behind the other at the start of the chunk, and `next` ends behind
the last one. -/
structure Inv (h : ChunkHistory cfg) (lives deads : List (Entry cfg)) : Prop where
  entries : h.entries = lives ++ deads
  live : ∀ e ∈ lives, e.live = true
  dead : ∀ e ∈ deads, e.live = false
  offsets : lives.map (fun e => (e.offset, e.object)) = placed 0 (lives.map Entry.object)
  holds : h.data.Holds 0 (layout (lives.map Entry.object))
  fits : (layout (lives.map Entry.object)).length ≤ cfg.chunkSize
  zero : deads = [] → ∀ i, (layout (lives.map Entry.object)).length ≤ i → i < cfg.chunkSize →
    h.data i = 0
  ends : NextEnds cfg h.data (layout (lives.map Entry.object)).length

theorem Inv.init : Inv (init : ChunkHistory cfg) [] [] where
  entries := rfl
  live := by simp
  dead := by simp
  offsets := rfl
  holds := Memory.holds_nil _ _
  fits := Nat.zero_le _
  zero := fun _ _ _ _ => rfl
  ends := fun _ => rfl

variable {h : ChunkHistory cfg} {lives deads : List (Entry cfg)}

theorem Inv.visible (hi : Inv h lives deads) (hg : h.LiveInFront) :
    ∀ o ∈ lives.map Entry.object, o.key ≠ [] := by
  intro o ho
  obtain ⟨e, he, rfl⟩ := List.mem_map.mp ho
  refine hg.2 e ?_ (hi.live e he)
  rw [hi.entries]
  exact List.mem_append_left _ he

theorem Inv.live_eq (hi : Inv h lives deads) : h.live = lives := by
  have hl : lives.filter Entry.live = lives := List.filter_eq_self.mpr hi.live
  have hd : deads.filter Entry.live = [] := by
    refine List.filter_eq_nil_iff.mpr fun e he => ?_
    rw [hi.dead e he]
    exact Bool.false_ne_true
  rw [ChunkHistory.live, hi.entries, List.filter_append, hl, hd, List.append_nil]

/-- Storing an object, when no deleted one is in front of it. -/
theorem Inv.insert (hi : Inv h lives deads) (hg : h.LiveInFront) (o : Object cfg)
    (hg' : (step h (.insert o)).LiveInFront) :
    ∃ lives' deads', Inv (step h (.insert o)) lives' deads' := by
  by_cases hfit : dataSize cfg h.data + o.size ≤ cfg.chunkSize
  swap
  · refine ⟨lives, deads, ?_⟩
    rwa [step, if_neg hfit]
  have hstep : step h (.insert o) = ⟨(store cfg h.data o).1,
      h.entries ++ [⟨o, (store cfg h.data o).2, true⟩]⟩ := by
    rw [step, if_pos hfit]
  rw [hstep] at hg' ⊢
  have hdeads : deads = [] := by
    refine List.eq_nil_iff_forall_not_mem.mpr fun e he => ?_
    have hmem : e ∈ h.entries := by
      rw [hi.entries]
      exact List.mem_append_right _ he
    have hlive := (List.pairwise_append.mp hg'.1).2.2 e hmem _ List.mem_cons_self rfl
    rw [hi.dead e he] at hlive
    cases hlive
  subst hdeads
  have hvis : ∀ x ∈ lives.map Entry.object, x.Visible := fun x hx => Or.inl (hi.visible hg x hx)
  have hc : ChunkHolds h.data (lives.map Entry.object) := ⟨hi.holds, hi.fits, hi.zero rfl⟩
  have hsize := hc.dataSize_eq hvis
  rw [hsize] at hfit
  have hc' := hc.store hvis hfit
  have hmap : (lives ++ [(⟨o, (store cfg h.data o).2, true⟩ : Entry cfg)]).map Entry.object =
      lives.map Entry.object ++ [o] := List.map_append
  refine ⟨lives ++ [⟨o, (store cfg h.data o).2, true⟩], [], ?_, ?_, ?_, ?_, ?_, ?_, ?_, ?_⟩
  · rw [hi.entries, List.append_nil, List.append_nil]
  · intro e he
    rcases List.mem_append.mp he with he | he
    · exact hi.live e he
    · rw [List.mem_singleton.mp he]
  · intro e he
    cases he
  · rw [hmap, List.map_append, hi.offsets, placed_append, store_eq, hsize, Nat.zero_add]
    rfl
  · rw [hmap]
    exact hc'.holds
  · rw [hmap]
    exact hc'.fits
  · intro _
    rw [hmap]
    exact hc'.zero
  · rw [hmap]
    exact hc'.nextEnds

/-- Deleting the last live object. -/
theorem Inv.delete (hi : Inv h lives deads) (hg : h.LiveInFront) (i : ℕ) (delta : Option Memory)
    (hg' : (step h (.delete i delta)).LiveInFront) :
    ∃ lives' deads', Inv (step h (.delete i delta)) lives' deads' := by
  cases hget : h.entries[i]? with
  | none =>
    refine ⟨lives, deads, ?_⟩
    rwa [step, hget]
  | some e =>
    cases hl : e.live with
    | false =>
      refine ⟨lives, deads, ?_⟩
      simpa [step, hget, hl] using hi
    | true =>
      have hstep : step h (.delete i delta) = ⟨(deleteObject cfg h.data e.offset delta).1,
          h.entries.set i { e with live := false }⟩ := by
        simp [step, hget, hl]
      rw [hstep] at hg' ⊢
      -- The object is among the live ones, and with no live one behind it, it is the last.
      have hlt : i < lives.length := by
        by_contra hge
        rw [hi.entries, List.getElem?_append_right (by omega)] at hget
        have := hi.dead e (List.mem_of_getElem? hget)
        rw [hl] at this
        cases this
      rw [hi.entries, List.getElem?_append_left hlt] at hget
      obtain ⟨as, bs, rfl, rfl⟩ := split_of_getElem? hget
      have hentries : h.entries = as ++ e :: (bs ++ deads) := by
        rw [hi.entries, List.append_assoc, List.cons_append]
      have hset : h.entries.set as.length { e with live := false } =
          as ++ { e with live := false } :: (bs ++ deads) := by
        rw [hentries, set_length_append]
      rw [hset] at hg' ⊢
      have hbs : bs = [] := by
        refine List.eq_nil_iff_forall_not_mem.mpr fun b hb => ?_
        have hpair := (List.pairwise_cons.mp (List.pairwise_append.mp hg'.1).2.1).1 b
          (List.mem_append_left _ hb)
        cases hpair (hi.live b (by simp [hb]))
      subst hbs
      rw [List.nil_append] at hentries hset ⊢
      have hoff := hi.offsets
      have hholds := hi.holds
      have hfits := hi.fits
      rw [List.map_append, List.map_cons, List.map_nil] at hoff hholds hfits
      rw [List.map_append, placed_append, Nat.zero_add] at hoff
      obtain ⟨hoff, he⟩ := List.append_inj' hoff rfl
      have heoff : e.offset = (layout (as.map Entry.object)).length := by
        simpa [placed] using he
      rw [layout_append, Memory.holds_append, Nat.zero_add, layout_cons, layout_nil,
        List.append_nil, ← heoff] at hholds
      rw [layout_append, List.length_append, ← heoff] at hfits
      have hk : e.object.key ≠ [] := hi.visible hg _ (by simp)
      have hpos : 0 < (deleteObject cfg h.data e.offset delta).2.2 := by
        have hkl := e.object.length_key
        have hv := e.object.valueSize_lt
        have := List.length_pos_iff.mpr hk
        rw [deleteObject_length, Object.deserialize_eq hholds.2, u32_eq (by simp only; omega)]
        simp only
        omega
      refine ⟨as, { e with live := false } :: deads, rfl, ?_, ?_, hoff, ?_, ?_, ?_, ?_⟩
      · intro x hx
        exact hi.live x (List.mem_append_left _ hx)
      · intro x hx
        rcases List.mem_cons.mp hx with rfl | hx
        · rfl
        · exact hi.dead x hx
      · refine hholds.1.congr fun j _ hj => deleteObject_before delta ?_
        omega
      · omega
      · intro hnil
        cases hnil
      · intro _
        rw [← heoff]
        exact deleteObject_head delta hpos

theorem Inv.step (hi : ∃ lives deads, Inv h lives deads) (op : Op cfg) (hg : h.LiveInFront)
    (hg' : (step h op).LiveInFront) : ∃ lives deads, Inv (step h op) lives deads := by
  obtain ⟨lives, deads, hi⟩ := hi
  cases op with
  | insert o => exact hi.insert hg o hg'
  | delete i delta => exact hi.delete hg i delta hg'

theorem Inv.sealListsLive (hi : Inv h lives deads) (hg : h.LiveInFront) : h.SealListsLive := by
  have hk := hi.visible hg
  rw [SealListsLive, hi.live_eq]
  refine ⟨fun e he => ?_, fun listId stripeId chunkId => ?_⟩
  · have hmem : (e.offset, e.object) ∈ placed 0 (lives.map Entry.object) := by
      rw [← hi.offsets]
      exact List.mem_map_of_mem he
    exact holds_placed hi.holds hmem
  · obtain ⟨hcount, hrecords⟩ := reqSealChunk_of_layout ⟨listId, stripeId, chunkId, h.data⟩
      hi.holds hk hi.fits hi.ends
    refine ⟨by rw [hcount, List.length_map], ?_⟩
    rw [hrecords, ← hi.offsets, List.map_map]
    rfl

/-- In a run of insertions and deletions that never leaves a live object behind a deleted one, the
SEAL_CHUNK request lists the live objects of every state. -/
theorem sealListsLive_run (ops : List (Op cfg))
    (hgood : ∀ n ≤ ops.length, (run step ChunkHistory.init (ops.take n)).LiveInFront) :
    (run step ChunkHistory.init ops).SealListsLive := by
  have hinv : ∃ lives deads, Inv (run step ChunkHistory.init ops) lives deads :=
    run_invariant_of_good LiveInFront ⟨[], [], Inv.init⟩
      (fun h op hi hg hg' => Inv.step hi op hg hg') ops hgood
  obtain ⟨lives, deads, hi⟩ := hinv
  have hlast := hgood ops.length le_rfl
  rw [List.take_length] at hlast
  exact hi.sealListsLive hlast

/-- Two small objects. -/
def sampleObject (name : UInt8) : Object GlobalConfig.smallest :=
  .plain [name, 0x31] [0x76, 0x76] (by simp) (by simp [GlobalConfig.smallest])

theorem sealListsLive_run_sample :
    (run step ChunkHistory.init [.insert (sampleObject 0x61), .insert (sampleObject 0x62),
      .delete 1 (some 0)]).SealListsLive :=
  sealListsLive_run _ (by decide)

/-- With the first of two objects deleted, the request lists nothing. -/
theorem not_sealListsLive_of_hole :
    ¬ ∀ ops : List (Op GlobalConfig.smallest), (run step ChunkHistory.init ops).SealListsLive := by
  intro h
  have hcount := ((h [.insert (sampleObject 0x61), .insert (sampleObject 0x62),
    .delete 0 (some 0)]).2 0 0 0).1
  revert hcount
  decide

end ChunkHistory

end MemEC.Server
