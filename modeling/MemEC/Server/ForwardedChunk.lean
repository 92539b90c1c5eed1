import MemEC.Common.Coding
import MemEC.Lib.Lists
import MemEC.Lib.Run
import MemEC.Server.DegradedMap

/-!
# Copies of a reconstructed chunk

The server to which a lost chunk is redirected gets the reconstructed chunk
from whoever has reconstructed it, itself included, and parity deltas for it
from the servers that update the stripe. A delta may come first, so that what
comes later is XOR-ed into what is there. That is right for the deltas, and for
one copy of the chunk.
-/

namespace MemEC.Server

open MemEC.Lib MemEC.Common

variable (cfg : GlobalConfig)

/-- The fields of a `ChunkDataHeader` that `handleForwardChunkRequest` uses. -/
structure ForwardedChunk where
  metadata : Metadata
  offset : ℕ
  data : List UInt8

namespace DegradedMap

variable (dmap : DegradedMap)

/-- `ServerWorker::handleForwardChunkRequest`, as far as the cache is concerned. -/
def handleForwardChunkRequest (dataChunkCount : ℕ) (header : ForwardedChunk)
    (_xorIfExists : Bool) : DegradedMap :=
  match dmap.findChunkById header.metadata with
  | some chunk =>
    -- Already exists
    let xorIfExists := true -- whatever the argument is
    if xorIfExists then
      let chunk := chunk.xorInto header.offset (.place 0 header.data) 0 header.data.length
      { dmap with cache := dmap.cache.insert header.metadata chunk }
    else dmap
  | none =>
    (dmap.insertChunk cfg header.metadata (Memory.place header.offset header.data)
      (dataChunkCount ≤ header.metadata.chunkId)).1

variable {cfg}

/-- The parity delta of `DegradedChunkBuffer::update`, in a scratch chunk. -/
def parityDelta (coding : Coding cfg) (updatingChunkId chunkId offset : ℕ)
    (dataDelta : List UInt8) : Memory :=
  let startOff := u32 (offset + chunkId * cfg.chunkSize)
  coding.encode (Pi.single chunkId (Memory.place offset dataDelta)) 0
    (updatingChunkId - coding.dataChunkCount + 1) startOff (u32 (startOff + dataDelta.length))

/-- `DegradedChunkBuffer::update`, for the parity chunk `metadata`. -/
def update (coding : Coding cfg) (metadata : Metadata) (chunkId offset : ℕ)
    (dataDelta : List UInt8) : DegradedMap :=
  let chunk := (dmap.cache.lookup metadata).getD 0
  let parity := parityDelta coding metadata.chunkId chunkId offset dataDelta
  { dmap with cache := dmap.cache.insert metadata (chunk.xorInto 0 parity 0 cfg.chunkSize) }

end DegradedMap

/-- What reaches the degraded buffer for a chunk: a copy of it, forwarded by a peer (`true`) or
produced here (`false`), or an update of the data chunk `chunkId`. -/
inductive ChunkArrival
  | copy (offset : ℕ) (data : List UInt8) (xorIfExists : Bool)
  | delta (chunkId offset : ℕ) (dataDelta : List UInt8)

variable {cfg} (coding : Coding cfg) (metadata : Metadata)

namespace DegradedMap

def arrive (dmap : DegradedMap) : ChunkArrival → DegradedMap
  | .copy offset data xorIfExists => dmap.handleForwardChunkRequest cfg coding.dataChunkCount
      ⟨metadata, offset, data⟩ xorIfExists
  | .delta chunkId offset dataDelta => dmap.update coding metadata chunkId offset dataDelta

/-- The map after the arrivals for one chunk. -/
def afterArrivals (dmap : DegradedMap) (arrivals : List ChunkArrival) : DegradedMap :=
  run (fun dmap a => dmap.arrive coding metadata a) dmap arrivals

/-- The cached chunk, with zeros when there is none. -/
def cached (dmap : DegradedMap) (metadata : Metadata) : Memory :=
  (dmap.cache.lookup metadata).getD 0

end DegradedMap

namespace ChunkArrival

/-- A copy of the chunk with this content. Zeros at its ends need not be sent. -/
def IsCopyOf (cfg : GlobalConfig) (content : Memory) : ChunkArrival → Prop
  | copy offset data _ => offset + data.length ≤ cfg.chunkSize ∧
      ∀ i < cfg.chunkSize, Memory.place offset data i = content i
  | delta _ _ _ => True

def isCopy : ChunkArrival → Bool
  | copy _ _ _ => true
  | delta _ _ _ => false

/-- What a delta changes in the chunk. -/
def change : ChunkArrival → Memory
  | copy _ _ _ => 0
  | delta chunkId offset dataDelta =>
    DegradedMap.parityDelta coding metadata.chunkId chunkId offset dataDelta

end ChunkArrival

/-- The content of the chunk with every delta applied once. -/
def expected (content : Memory) (arrivals : List ChunkArrival) : Memory :=
  content + (arrivals.map (ChunkArrival.change coding metadata)).sum

/-! ## What an arrival does -/

variable {coding metadata}

theorem cached_arrive_copy (dmap : DegradedMap) (offset : ℕ) (data : List UInt8)
    (xorIfExists : Bool) :
    (dmap.arrive coding metadata (.copy offset data xorIfExists)).cached metadata =
      dmap.cached metadata + Memory.place offset data := by
  rw [DegradedMap.arrive, DegradedMap.handleForwardChunkRequest, DegradedMap.findChunkById,
    DegradedMap.cached, DegradedMap.cached]
  cases h : dmap.cache.lookup metadata with
  | none =>
    simp [DegradedMap.insertChunk, h]
  | some chunk =>
    have hwindow : Memory.window 0 offset data.length (Memory.place 0 data) =
        Memory.place offset data := Memory.window_place 0 offset (Nat.zero_add _).le
    simp only [if_true, AList.lookup_insert, Option.getD_some, Memory.xorInto_eq_add, hwindow]

theorem cached_arrive_delta (dmap : DegradedMap) {chunkId offset : ℕ} {dataDelta : List UInt8}
    {i : ℕ} (hi : i < cfg.chunkSize) :
    (dmap.arrive coding metadata (.delta chunkId offset dataDelta)).cached metadata i =
      (dmap.cached metadata +
        ChunkArrival.change coding metadata (.delta chunkId offset dataDelta)) i := by
  have hwindow : ∀ m : Memory, Memory.window 0 0 cfg.chunkSize m i = m i := by
    intro m
    simp [Memory.window, hi]
  simp only [DegradedMap.arrive, DegradedMap.update, DegradedMap.cached, AList.lookup_insert,
    Option.getD_some, Memory.xorInto_eq_add, Memory.add_apply, hwindow, ChunkArrival.change]

/-- Each copy adds the content once more. -/
theorem cached_arrive {content : Memory} {a : ChunkArrival} (h : a.IsCopyOf cfg content)
    (dmap : DegradedMap) {i : ℕ} (hi : i < cfg.chunkSize) :
    (dmap.arrive coding metadata a).cached metadata i =
      (dmap.cached metadata + (if a.isCopy then content else 0) +
        a.change coding metadata) i := by
  cases a with
  | copy offset data xorIfExists =>
    simp only [cached_arrive_copy, ChunkArrival.isCopy, ChunkArrival.change, if_true,
      Memory.add_apply, Memory.zero_apply, UInt8.xor_zero, h.2 i hi]
  | delta chunkId offset dataDelta =>
    rw [cached_arrive_delta dmap hi]
    simp only [ChunkArrival.isCopy, Bool.false_eq_true, if_false, Memory.add_apply,
      Memory.zero_apply, UInt8.xor_zero]

/-! ## What any sequence of arrivals does -/

/-- Each copy adds the content once more, and each delta its change. -/
theorem cached_afterArrivals {content : Memory} {arrivals : List ChunkArrival}
    (h : ∀ a ∈ arrivals, a.IsCopyOf cfg content) (dmap : DegradedMap) {i : ℕ}
    (hi : i < cfg.chunkSize) :
    (dmap.afterArrivals coding metadata arrivals).cached metadata i =
      (dmap.cached metadata + (arrivals.map fun a => if a.isCopy then content else 0).sum +
        (arrivals.map (ChunkArrival.change coding metadata)).sum) i := by
  induction arrivals generalizing dmap with
  | nil => simp [DegradedMap.afterArrivals]
  | cons a arrivals ih =>
    have hfirst : (dmap.arrive coding metadata a).cached metadata i =
        (dmap.cached metadata + (if a.isCopy then content else 0) + a.change coding metadata) i :=
      cached_arrive (h a List.mem_cons_self) dmap hi
    have hrest := ih (fun b hb => h b (List.mem_cons_of_mem a hb)) (dmap.arrive coding metadata a)
    rw [List.map_cons, List.map_cons, List.sum_cons, List.sum_cons]
    have hgroup : ∀ m c d cs ds : Memory, m + c + d + cs + ds = m + (c + cs) + (d + ds) := by
      intro m c d cs ds
      abel
    calc ((dmap.arrive coding metadata a).afterArrivals coding metadata arrivals).cached metadata i
        = _ := hrest
      _ = ((dmap.cached metadata + (if a.isCopy then content else 0) +
            a.change coding metadata) +
          (arrivals.map fun a => if a.isCopy then content else 0).sum +
          (arrivals.map (ChunkArrival.change coding metadata)).sum) i := by
        simp only [Memory.add_apply] at hfirst ⊢
        rw [hfirst]
      _ = _ := congrFun (hgroup _ _ _ _ _) i

theorem lookup_arrive (dmap : DegradedMap) (a : ChunkArrival) :
    (dmap.arrive coding metadata a).cache.lookup metadata =
      some ((dmap.arrive coding metadata a).cached metadata) := by
  cases a with
  | copy offset data xorIfExists =>
    rw [DegradedMap.cached, DegradedMap.arrive, DegradedMap.handleForwardChunkRequest,
      DegradedMap.findChunkById]
    cases h : dmap.cache.lookup metadata with
    | none => simp [DegradedMap.insertChunk, h]
    | some chunk => simp
  | delta chunkId offset dataDelta =>
    simp [DegradedMap.cached, DegradedMap.arrive, DegradedMap.update]

/-- The chunk is in the cache as soon as anything has arrived. -/
theorem lookup_afterArrivals {arrivals : List ChunkArrival} (hne : arrivals ≠ [])
    (dmap : DegradedMap) :
    (dmap.afterArrivals coding metadata arrivals).cache.lookup metadata =
      some ((dmap.afterArrivals coding metadata arrivals).cached metadata) := by
  rw [← List.dropLast_concat_getLast hne, DegradedMap.afterArrivals, run_concat]
  exact lookup_arrive _ _

/-- After any arrivals, copies among them, the cached chunk is the content with every delta applied
once if and only if an odd number of copies has arrived, or the content is zero. -/
theorem cached_iff_odd (coding : Coding cfg) (metadata : Metadata) (content : Memory)
    (arrivals : List ChunkArrival) (dmap : DegradedMap)
    (habsent : dmap.findChunkById metadata = none)
    (hcopies : ∀ a ∈ arrivals, a.IsCopyOf cfg content)
    (hsome : ∃ a ∈ arrivals, a.isCopy = true) :
    (∃ chunk, (dmap.afterArrivals coding metadata arrivals).findChunkById metadata = some chunk ∧
        ∀ i < cfg.chunkSize, chunk i = expected coding metadata content arrivals i) ↔
      Odd (arrivals.countP ChunkArrival.isCopy) ∨ ∀ i < cfg.chunkSize, content i = 0 := by
  have hne : arrivals ≠ [] := by
    rintro rfl
    obtain ⟨a, ha, -⟩ := hsome
    cases ha
  have hstart : dmap.cached metadata = 0 := by
    rw [DegradedMap.cached, show dmap.cache.lookup metadata = none from habsent]
    rfl
  have hcached : ∀ i < cfg.chunkSize,
      (dmap.afterArrivals coding metadata arrivals).cached metadata i =
        ((if Odd (arrivals.countP ChunkArrival.isCopy) then content else 0) +
          (arrivals.map (ChunkArrival.change coding metadata)).sum) i := by
    intro i hi
    rw [cached_afterArrivals hcopies dmap hi, hstart, zero_add,
      sum_map_ite_of_self Memory.add_self]
  simp only [DegradedMap.findChunkById, lookup_afterArrivals hne dmap, Option.some_inj,
    exists_eq_left']
  constructor
  · intro h
    by_cases hodd : Odd (arrivals.countP ChunkArrival.isCopy)
    · exact Or.inl hodd
    · refine Or.inr fun i hi => ?_
      have heq := (hcached i hi).symm.trans (h i hi)
      rw [if_neg hodd, zero_add, expected, Memory.add_apply] at heq
      set change := (arrivals.map (ChunkArrival.change coding metadata)).sum i
      calc content i
          = content i ^^^ change ^^^ change := by
            rw [UInt8.xor_assoc, UInt8.xor_self, UInt8.xor_zero]
        _ = 0 := by rw [← heq, UInt8.xor_self]
  · rintro (hodd | hzero) i hi
    · rw [hcached i hi, if_pos hodd, expected]
    · rw [hcached i hi, expected, Memory.add_apply, Memory.add_apply, hzero i hi]
      split_ifs
      · rw [hzero i hi]
      · rfl

/-- A code with one data chunk. -/
def oneDataChunk : Coding .smallest := .raid5 1

/-- The parity chunk of a stripe with one data chunk. -/
def lostParity : Metadata := ⟨0, 0, 1⟩

/-- A parity chunk with one byte, between two updates of the data chunk. -/
def copyBetweenDeltas : List ChunkArrival :=
  [.delta 0 0 [117], .copy 2 [1] true, .delta 0 1 [118, 119]]

theorem cached_iff_odd_copyBetweenDeltas :
    (∃ chunk, (DegradedMap.empty.afterArrivals oneDataChunk lostParity
          copyBetweenDeltas).findChunkById lostParity = some chunk ∧
        ∀ i < 32, chunk i = expected oneDataChunk lostParity (.place 2 [1])
          copyBetweenDeltas i) ↔
      Odd (copyBetweenDeltas.countP ChunkArrival.isCopy) ∨ ∀ i < 32, Memory.place 2 [1] i = 0 :=
  cached_iff_odd oneDataChunk lostParity (.place 2 [1]) copyBetweenDeltas .empty rfl
    (by simp [copyBetweenDeltas, ChunkArrival.IsCopyOf, GlobalConfig.smallest])
    ⟨.copy 2 [1] true, by simp [copyBetweenDeltas], rfl⟩

/-- The same copy from a peer and from the server itself. -/
def copiedTwice : List ChunkArrival := [.copy 2 [1] true, .copy 2 [1] false]

theorem not_cached_copiedTwice :
    (∀ a ∈ copiedTwice, a.IsCopyOf .smallest (.place 2 [1])) ∧
      ((DegradedMap.empty.afterArrivals oneDataChunk lostParity
        copiedTwice).findChunkById lostParity).map (fun chunk => chunk 2) = some 0 ∧
      ¬∃ chunk, (DegradedMap.empty.afterArrivals oneDataChunk lostParity
          copiedTwice).findChunkById lostParity = some chunk ∧
        ∀ i < 32, chunk i = expected oneDataChunk lostParity (.place 2 [1])
          copiedTwice i := by
  have hgone : ((DegradedMap.empty.afterArrivals oneDataChunk lostParity
      copiedTwice).findChunkById lostParity).map (fun chunk => chunk 2) = some 0 := by
    decide +kernel
  refine ⟨by simp [copiedTwice, ChunkArrival.IsCopyOf, GlobalConfig.smallest], hgone, ?_⟩
  rintro ⟨chunk, hchunk, hall⟩
  have htwo := hall 2 (by decide)
  rw [hchunk, Option.map_some, Option.some_inj] at hgone
  rw [hgone] at htwo
  exact absurd htwo (by decide +kernel)

end MemEC.Server
