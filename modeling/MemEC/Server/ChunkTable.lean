import MemEC.Common.ChunkAddress
import MemEC.Common.CodingParams
import MemEC.Common.FixedKeyTable

/-!
# The chunk table

`Map` finds a chunk by the eight bytes of its identifier, which are the first
ones of the chunk. They have a byte for the list, six for the stripe and one for
the chunk within the stripe, while the ids are numbers of 32 bits.
-/

namespace MemEC.Common

open MemEC.Lib

/-! ## Identifiers -/

/-- The bytes of a `ChunkIdentifier` with these ids. The stripe id has its lowest byte first. -/
def Metadata.identifier (metadata : Metadata) : List UInt8 :=
  UInt8.ofNat metadata.listId ::
    ((beBytes 6 metadata.stripeId).reverse ++ [UInt8.ofNat metadata.chunkId])

/-- The ids in the bytes of a `ChunkIdentifier`. -/
def Metadata.ofIdentifier (bytes : List UInt8) : Metadata where
  listId := (bytes.getD 0 0).toNat
  stripeId := u32 (ofBe ((bytes.drop 1).take 6).reverse)
  chunkId := (bytes.getD 7 0).toNat

namespace Metadata

variable {metadata : Metadata}

theorem length_identifier (metadata : Metadata) : metadata.identifier.length = 8 := by
  simp [identifier]

theorem ofIdentifier_identifier (metadata : Metadata) : ofIdentifier metadata.identifier =
    ⟨metadata.listId % 2 ^ 8, u32 (metadata.stripeId % 2 ^ 48), metadata.chunkId % 2 ^ 8⟩ := by
  have hstripe : ((metadata.identifier.drop 1).take 6).reverse = beBytes 6 metadata.stripeId := rfl
  have hchunk : metadata.identifier.getD 7 0 = UInt8.ofNat metadata.chunkId := rfl
  have hlist : (metadata.identifier.getD 0 0).toNat = metadata.listId % 2 ^ 8 :=
    UInt8.toNat_ofNat'
  rw [ofIdentifier, hstripe, hchunk, hlist, ofBe_beBytes_mod, UInt8.toNat_ofNat']
  norm_num

/-- The identifier of a new chunk. -/
theorem ofIdentifier_eq_metadata (h : metadata.stripeId < 2 ^ 32) :
    ofIdentifier metadata.identifier =
      (Chunk.ofIds metadata.listId metadata.stripeId metadata.chunkId).metadata := by
  have hmod : metadata.stripeId % 2 ^ 48 = metadata.stripeId := Nat.mod_eq_of_lt (by omega)
  rw [ofIdentifier_identifier, Chunk.metadata, Chunk.ofIds, hmod, u32_eq h]

end Metadata

namespace StripeConfig

variable (config : StripeConfig)

/-- The ids of a chunk of the configuration: an index into the stripe lists, a stripe number and an
index into the servers of a list. -/
structure Names (metadata : Metadata) : Prop where
  listId_lt : metadata.listId < config.listCount.toNat
  stripeId_lt : metadata.stripeId < 2 ^ 32
  chunkId_lt : metadata.chunkId < config.params.getChunkCount.toNat

/-- The ids have a byte each, unless there are no chunks at all. -/
def WithinBytes : Prop :=
  config.params.getChunkCount = 0 ∨
    config.listCount ≤ 256 ∧ config.params.getChunkCount ≤ 256

/-- The identifiers tell the chunks of the configuration apart. -/
def Distinct : Prop :=
  ∀ a b, config.Names a → config.Names b → a.identifier = b.identifier → a = b

variable {config} {metadata : Metadata}

theorem Names.ofIdentifier_eq (h : config.Names metadata) (hwithin : config.WithinBytes) :
    Metadata.ofIdentifier metadata.identifier = metadata := by
  obtain ⟨hlist, hstripe, hchunk⟩ := h
  rcases hwithin with hzero | ⟨hlists, hchunks⟩
  · rw [hzero] at hchunk
    exact absurd hchunk (Nat.not_lt_zero _)
  · have hlists : config.listCount.toNat ≤ 256 := UInt32.le_iff_toNat_le.mp hlists
    have hchunks : config.params.getChunkCount.toNat ≤ 256 := UInt32.le_iff_toNat_le.mp hchunks
    rw [Metadata.ofIdentifier_identifier, Nat.mod_eq_of_lt (by omega),
      Nat.mod_eq_of_lt (by omega), Nat.mod_eq_of_lt (by omega), u32_eq hstripe]

theorem distinct_of_withinBytes (h : config.WithinBytes) : config.Distinct := by
  intro a b ha hb heq
  rw [← ha.ofIdentifier_eq h, ← hb.ofIdentifier_eq h, heq]

/-- Beyond a byte there is a chunk whose ids come back as those of another one. -/
theorem exists_lost (h : ¬config.WithinBytes) :
    ∃ a b, config.Names a ∧ config.Names b ∧ a ≠ b ∧ a.identifier = b.identifier ∧
      Metadata.ofIdentifier a.identifier ≠ a := by
  obtain ⟨hzero, hmany⟩ := not_or.mp h
  have hlists : 0 < config.listCount.toNat := UInt32.le_iff_toNat_le.mp config.one_le_listCount
  have hchunks : 0 < config.params.getChunkCount.toNat :=
    Nat.pos_of_ne_zero fun h0 => hzero (UInt32.toNat_inj.mp h0)
  by_cases hlarge : config.listCount ≤ 256
  · have hlt : 256 < config.params.getChunkCount.toNat := by
      have hnot : ¬config.params.getChunkCount ≤ 256 := fun hle => hmany ⟨hlarge, hle⟩
      exact Nat.not_le.mp fun hle => hnot (UInt32.le_iff_toNat_le.mpr hle)
    exact ⟨⟨0, 0, 256⟩, ⟨0, 0, 0⟩, ⟨hlists, by norm_num, hlt⟩, ⟨hlists, by norm_num, hchunks⟩,
      by decide, rfl, by decide⟩
  · have hlt : 256 < config.listCount.toNat :=
      Nat.not_le.mp fun hle => hlarge (UInt32.le_iff_toNat_le.mpr hle)
    exact ⟨⟨256, 0, 0⟩, ⟨0, 0, 0⟩, ⟨hlt, by norm_num, hchunks⟩, ⟨hlists, by norm_num, hchunks⟩,
      by decide, rfl, by decide⟩

end StripeConfig

end MemEC.Common

namespace MemEC.Server

open MemEC.Lib MemEC.Common

/-- The parameters of a table whose keys are chunk identifiers. -/
structure ChunkTableShape extends TableShape where
  keySize_eq : keySize = 8

theorem ChunkTableShape.keySize_ne (shape : ChunkTableShape) : shape.keySize ≠ 0 := by
  rw [shape.keySize_eq]
  norm_num

/-- What the server does with chunks: `ChunkPool::alloc`, `ChunkUtil::set`, `Map::setChunk`, changes
of the memory that leave the identifiers as they are, and `TempChunkPool::free`. -/
inductive ChunkOp
  | alloc (chunk : ℕ) (metadata : Metadata)
  | setIds (chunk : ℕ) (metadata : Metadata)
  | setChunk (metadata : Metadata) (chunk : ℕ)
  | store (m : Memory)
  | free (chunk : ℕ)

/-- The chunk table and the memory with the chunks, the ids that each chunk was created with, and
the chunk that the table has taken under each ids. -/
structure ChunkMapState (shape : ChunkTableShape) where
  chunks : CuckooHash shape.toTableShape
  m : Memory
  created : ℕ → Option Metadata
  stored : Metadata → Option ℕ

/-- Two chunks do not overlap. -/
def Apart (cfg : GlobalConfig) (a b : ℕ) : Prop := a + cfg.slotSize ≤ b ∨ b + cfg.slotSize ≤ a

namespace ChunkMapState

variable {cfg : GlobalConfig} {config : StripeConfig} {shape : ChunkTableShape} {rand : ℕ → ℕ}
  {s : ChunkMapState shape}

def start (shape : ChunkTableShape) (m : Memory) : ChunkMapState shape :=
  ⟨.init shape.toTableShape, m, fun _ => none, fun _ => none⟩

/-- `ChunkUtil::getMetadata`. -/
def getMetadata (s : ChunkMapState shape) (chunk : ℕ) : Metadata :=
  .ofIdentifier (s.m.read chunk 8)

/-- `Map::findChunkById`. -/
def findChunkById (cfg : GlobalConfig) (s : ChunkMapState shape) (metadata : Metadata) : Option ℕ :=
  s.chunks.find cfg s.m (.plain metadata.identifier)

/-- What `Map::setChunk` does with the chunk table. -/
def setChunk (cfg : GlobalConfig) (rand : ℕ → ℕ) (s : ChunkMapState shape) (metadata : Metadata)
    (chunk : ℕ) : Option (ChunkMapState shape) :=
  match s.chunks.find cfg s.m (.plain (s.m.read chunk 8)) with
  | some _ => some s
  | none =>
    (s.chunks.insert cfg s.m rand (.plain (s.m.read chunk 8)) chunk).map fun r =>
      { s with
        chunks := r.1
        stored := if r.2 then Function.update s.stored metadata (some chunk) else s.stored }

/-- One operation. -/
def step (cfg : GlobalConfig) (rand : ℕ → ℕ) (s : ChunkMapState shape) :
    ChunkOp → Option (ChunkMapState shape)
  | .alloc chunk metadata => some { s with
      m := (s.m.fill chunk cfg.slotSize 0).write chunk metadata.identifier
      created := Function.update s.created chunk (some metadata) }
  | .setIds chunk metadata => some { s with
      m := s.m.write chunk metadata.identifier
      created := Function.update s.created chunk (some metadata) }
  | .setChunk metadata chunk => s.setChunk cfg rand metadata chunk
  | .store m => some { s with m := m }
  | .free chunk => some { s with created := Function.update s.created chunk none }

/-- Chunks are created with ids of the configuration where no other chunk is. Only chunks that are
not in the table get other ids or are freed, and a chunk is registered with its own ids. -/
def Allowed (cfg : GlobalConfig) (config : StripeConfig) (s : ChunkMapState shape) :
    ChunkOp → Prop
  | .alloc chunk metadata => chunk ≠ 0 ∧ config.Names metadata ∧
      ∀ c, (s.created c).isSome → Apart cfg chunk c
  | .setIds chunk metadata => (s.created chunk).isSome ∧ config.Names metadata ∧
      ∀ md, s.stored md ≠ some chunk
  | .setChunk metadata chunk => s.created chunk = some metadata
  | .store m => ∀ chunk, (s.created chunk).isSome → m.read chunk 8 = s.m.read chunk 8
  | .free chunk => ∀ md, s.stored md ≠ some chunk

/-- The state after the operations. -/
def after (cfg : GlobalConfig) (rand : ℕ → ℕ) (s : ChunkMapState shape) (ops : List ChunkOp) :
    Option (ChunkMapState shape) := tryRun (step cfg rand) s ops

/-- The chunks are not confused: what is found under ids is the chunk that was registered with them,
and every chunk has the ids that it was created with. -/
structure Distinguishes (cfg : GlobalConfig) (config : StripeConfig) (s : ChunkMapState shape) :
    Prop where
  find_eq : ∀ md, config.Names md → s.findChunkById cfg md = s.stored md
  stored_created : ∀ md chunk, s.stored md = some chunk → s.created chunk = some md
  metadata_eq : ∀ chunk md, s.created chunk = some md → s.getMetadata chunk = md

/-- The table is the dictionary of the registered chunks. -/
def Indexed (s : ChunkMapState shape) (m : Memory) : Prop :=
  ∃ dict, FixedKeyTable.Inv (⟨s.chunks, m, dict⟩ : FixedKeyTable shape.toTableShape) ∧
    ∀ key chunk, dict key = some chunk ↔ ∃ md, s.stored md = some chunk ∧ md.identifier = key

structure Inv (cfg : GlobalConfig) (config : StripeConfig) (s : ChunkMapState shape) : Prop where
  indexed : s.Indexed s.m
  ids : ∀ chunk md, s.created chunk = some md →
    chunk ≠ 0 ∧ config.Names md ∧ s.m.read chunk 8 = md.identifier
  apart : ∀ c d, (s.created c).isSome → (s.created d).isSome → c ≠ d → Apart cfg c d
  stored_created : ∀ md chunk, s.stored md = some chunk → s.created chunk = some md

theorem Inv.start (m : Memory) : (start shape m).Inv cfg config where
  indexed := by
    refine ⟨fun _ => none, FixedKeyTable.Inv.start m, fun key chunk => ⟨fun h => ?_, fun h => ?_⟩⟩
    · cases h
    · obtain ⟨md, hmd, -⟩ := h
      cases hmd
  ids chunk md h := by cases h
  apart c d h := by cases h
  stored_created md chunk h := by cases h

theorem Inv.isSome_created (h : s.Inv cfg config) {md : Metadata} {chunk : ℕ}
    (hchunk : s.stored md = some chunk) : (s.created chunk).isSome :=
  Option.isSome_iff_exists.mpr ⟨md, h.stored_created md chunk hchunk⟩

theorem Inv.find_eq (h : s.Inv cfg config) (hdistinct : config.Distinct) {md : Metadata}
    (hmd : config.Names md) : s.findChunkById cfg md = s.stored md := by
  obtain ⟨dict, hinv, hdict⟩ := h.indexed
  have hlength : md.identifier.length = shape.keySize :=
    (Metadata.length_identifier md).trans shape.keySize_eq.symm
  have hfind : s.findChunkById cfg md = dict md.identifier := hinv.find_eq shape.keySize_ne hlength
  rw [hfind]
  refine Option.ext fun chunk => (hdict _ _).trans ⟨?_, fun hchunk => ⟨md, hchunk, rfl⟩⟩
  rintro ⟨md', hchunk, heq⟩
  have hmd' := (h.ids chunk md' (h.stored_created md' chunk hchunk)).2.1
  rwa [← hdistinct md' md hmd' hmd heq]

/-! ## Steps -/

/-- The table stays as it is when the memory changes beside the registered chunks. -/
theorem Inv.indexed_of_read (h : s.Inv cfg config) {m : Memory}
    (hread : ∀ md chunk, s.stored md = some chunk → m.read chunk 8 = s.m.read chunk 8) :
    s.Indexed m := by
  obtain ⟨dict, hinv, hdict⟩ := h.indexed
  have hallowed : FixedKeyTable.Allowed
      (⟨s.chunks, s.m, dict⟩ : FixedKeyTable shape.toTableShape) (.store m) := by
    intro key chunk hchunk
    obtain ⟨md, hmd, -⟩ := (hdict key chunk).mp hchunk
    change m.read chunk shape.keySize = s.m.read chunk shape.keySize
    rw [shape.keySize_eq]
    exact hread md chunk hmd
  obtain ⟨s', hs', hinv'⟩ := @FixedKeyTable.Inv.store cfg _ (fun _ => 0) _ hinv m hallowed
  obtain rfl := Option.some.inj hs'
  exact ⟨dict, hinv', hdict⟩

/-- A chunk gets ids, in memory that no other chunk has. -/
theorem Inv.write (h : s.Inv cfg config) {m : Memory} {chunk : ℕ} {metadata : Metadata}
    (hne : chunk ≠ 0) (hnames : config.Names metadata) (hnew : ∀ md, s.stored md ≠ some chunk)
    (hapart : ∀ c, (s.created c).isSome → c ≠ chunk → Apart cfg chunk c)
    (hread : m.read chunk 8 = metadata.identifier)
    (hout : ∀ i, i < chunk ∨ chunk + cfg.slotSize ≤ i → m i = s.m i) :
    ({ s with
      m := m
      created := Function.update s.created chunk (some metadata) } : ChunkMapState shape).Inv
        cfg config := by
  have hslot := (ChunkPoolVars.slotSize_bounds cfg).1
  have hother : ∀ c, (s.created c).isSome → c ≠ chunk → m.read c 8 = s.m.read c 8 := by
    intro c hc hcne
    refine Memory.read_congr fun i hlow hhigh => hout i ?_
    rcases hapart c hc hcne with hbehind | hbefore
    · exact .inr (by omega)
    · exact .inl (by omega)
  have hcreated : ∀ c md, Function.update s.created chunk (some metadata) c = some md →
      c = chunk ∧ md = metadata ∨ c ≠ chunk ∧ s.created c = some md := by
    intro c md hc
    by_cases heq : c = chunk
    · subst heq
      rw [Function.update_self] at hc
      exact .inl ⟨rfl, (Option.some.inj hc).symm⟩
    · rw [Function.update_of_ne heq] at hc
      exact .inr ⟨heq, hc⟩
  have hold : ∀ c, (Function.update s.created chunk (some metadata) c).isSome → c ≠ chunk →
      (s.created c).isSome := by
    intro c hc hcne
    rwa [Function.update_of_ne hcne] at hc
  constructor
  · refine h.indexed_of_read fun md c hc => ?_
    exact hother c (h.isSome_created hc) fun heq => hnew md (heq ▸ hc)
  · intro c md hc
    rcases hcreated c md hc with ⟨rfl, rfl⟩ | ⟨hcne, hc⟩
    · exact ⟨hne, hnames, hread⟩
    · obtain ⟨hc0, hmd, hids⟩ := h.ids c md hc
      have hsame := hother c (Option.isSome_iff_exists.mpr ⟨md, hc⟩) hcne
      exact ⟨hc0, hmd, hsame.trans hids⟩
  · intro c d hc hd hcd
    by_cases hcchunk : c = chunk
    · subst hcchunk
      exact hapart d (hold d hd (Ne.symm hcd)) (Ne.symm hcd)
    · by_cases hdchunk : d = chunk
      · subst hdchunk
        exact (hapart c (hold c hc hcchunk) hcchunk).symm
      · exact h.apart c d (hold c hc hcchunk) (hold d hd hdchunk) hcd
  · intro md c hc
    have hcne : c ≠ chunk := fun heq => hnew md (heq ▸ hc)
    exact (Function.update_of_ne hcne _ _).trans (h.stored_created md c hc)

theorem Inv.alloc (h : s.Inv cfg config) {chunk : ℕ} {metadata : Metadata}
    (ha : s.Allowed cfg config (.alloc chunk metadata)) :
    ∃ s', s.step cfg rand (.alloc chunk metadata) = some s' ∧ s'.Inv cfg config := by
  obtain ⟨hne, hnames, hapart⟩ := ha
  have hslot := (ChunkPoolVars.slotSize_bounds cfg).1
  have hlength := Metadata.length_identifier metadata
  have hread := Memory.holds_write (s.m.fill chunk cfg.slotSize 0) chunk metadata.identifier
  rw [Memory.Holds, hlength] at hread
  refine ⟨_, rfl, h.write hne hnames ?_ (fun c hc _ => hapart c hc) hread fun i hi => ?_⟩
  · intro md hmd
    have happ := hapart chunk (h.isSome_created hmd)
    unfold Apart at happ
    omega
  · rw [Memory.write_apply_out (by omega), Memory.fill_eq_write,
      Memory.write_apply_out (by rw [List.length_replicate]; omega)]

theorem Inv.setIds (h : s.Inv cfg config) {chunk : ℕ} {metadata : Metadata}
    (ha : s.Allowed cfg config (.setIds chunk metadata)) :
    ∃ s', s.step cfg rand (.setIds chunk metadata) = some s' ∧ s'.Inv cfg config := by
  obtain ⟨hcreated, hnames, hnew⟩ := ha
  obtain ⟨md, hmd⟩ := Option.isSome_iff_exists.mp hcreated
  have hslot := (ChunkPoolVars.slotSize_bounds cfg).1
  have hlength := Metadata.length_identifier metadata
  have hread := Memory.holds_write s.m chunk metadata.identifier
  rw [Memory.Holds, hlength] at hread
  refine ⟨_, rfl, h.write (h.ids chunk md hmd).1 hnames hnew ?_ hread fun i hi => ?_⟩
  · exact fun c hc hne => h.apart chunk c hcreated hc (Ne.symm hne)
  · rw [Memory.write_apply_out (by omega)]

/-- A chunk is registered under new ids. -/
theorem update_iff {dict : List UInt8 → Option ℕ} {stored : Metadata → Option ℕ}
    (hdict : ∀ key c, dict key = some c ↔ ∃ md, stored md = some c ∧ md.identifier = key)
    {metadata : Metadata} (hnone : dict metadata.identifier = none) (chunk : ℕ) (key : List UInt8)
    (c : ℕ) : Function.update dict metadata.identifier (some chunk) key = some c ↔
      ∃ md, Function.update stored metadata (some chunk) md = some c ∧ md.identifier = key := by
  by_cases hkey : key = metadata.identifier
  · subst hkey
    rw [Function.update_self]
    constructor
    · intro hc
      exact ⟨metadata, (Function.update_self _ _ _).trans hc, rfl⟩
    · rintro ⟨md, hmd, heq⟩
      by_cases hmdeq : md = metadata
      · rwa [hmdeq, Function.update_self] at hmd
      · rw [Function.update_of_ne hmdeq] at hmd
        have hc := (hdict _ c).mpr ⟨md, hmd, heq⟩
        rw [hnone] at hc
        cases hc
  · rw [Function.update_of_ne hkey, hdict]
    refine exists_congr fun md => and_congr_left fun heq => ?_
    have hmdne : md ≠ metadata := fun hmdeq => hkey (by rw [← heq, hmdeq])
    rw [Function.update_of_ne hmdne]

/-- The table takes a chunk whose ids are not in it, or fails to. -/
theorem Inv.insert (h : s.Inv cfg config) (hdistinct : config.Distinct) {chunk : ℕ}
    {metadata : Metadata} (hcreated : s.created chunk = some metadata)
    (hstored : s.stored metadata = none) :
    ∃ r, s.chunks.insert cfg s.m rand (.plain metadata.identifier) chunk = some r ∧
      ({ s with
        chunks := r.1
        stored := if r.2 then Function.update s.stored metadata (some chunk)
          else s.stored } : ChunkMapState shape).Inv cfg config := by
  obtain ⟨hne, hnames, hread⟩ := h.ids chunk metadata hcreated
  obtain ⟨dict, hinv, hdict⟩ := h.indexed
  have hnone : dict metadata.identifier = none := by
    refine Option.eq_none_iff_forall_ne_some.mpr fun c hc => ?_
    obtain ⟨md, hmd, heq⟩ := (hdict _ c).mp hc
    obtain rfl := hdistinct md metadata (h.ids c md (h.stored_created md c hmd)).2.1 hnames heq
    rw [hstored] at hmd
    cases hmd
  have hallowed : FixedKeyTable.Allowed (⟨s.chunks, s.m, dict⟩ : FixedKeyTable shape.toTableShape)
      (.insert metadata.identifier chunk) := by
    refine ⟨hne, ?_, hnone⟩
    rw [shape.keySize_eq]
    exact hread
  obtain ⟨t, ht, hinv'⟩ := @FixedKeyTable.Inv.insert cfg _ rand _ hinv shape.keySize_ne _ _ hallowed
  obtain ⟨⟨chunks, ok⟩, hr, rfl⟩ := Option.map_eq_some_iff.mp ht
  refine ⟨(chunks, ok), hr, ?_⟩
  cases ok with
  | false => exact ⟨⟨_, hinv', hdict⟩, h.ids, h.apart, h.stored_created⟩
  | true =>
    refine ⟨⟨_, hinv', update_iff hdict hnone chunk⟩, h.ids, h.apart, fun md c hc => ?_⟩
    by_cases hmd : md = metadata
    · have hself : Function.update s.stored metadata (some chunk) md = some chunk := by
        rw [hmd, Function.update_self]
      obtain rfl := Option.some.inj (hself.symm.trans hc)
      exact hmd ▸ hcreated
    · have hother : Function.update s.stored metadata (some chunk) md = s.stored md :=
        Function.update_of_ne hmd _ _
      exact h.stored_created md c (hother.symm.trans hc)

theorem Inv.setChunk (h : s.Inv cfg config) (hdistinct : config.Distinct) {chunk : ℕ}
    {metadata : Metadata} (ha : s.Allowed cfg config (.setChunk metadata chunk)) :
    ∃ s', s.step cfg rand (.setChunk metadata chunk) = some s' ∧ s'.Inv cfg config := by
  obtain ⟨-, hnames, hread⟩ := h.ids chunk metadata ha
  have hfind : s.chunks.find cfg s.m (.plain metadata.identifier) = s.stored metadata :=
    h.find_eq hdistinct hnames
  simp only [step, ChunkMapState.setChunk, hread, hfind]
  cases hstored : s.stored metadata with
  | some c => exact ⟨s, rfl, h⟩
  | none =>
    obtain ⟨r, hr, hinv⟩ := h.insert hdistinct ha hstored
    exact ⟨_, congrArg (Option.map _) hr, hinv⟩

theorem Inv.distinguishes (h : s.Inv cfg config) (hwithin : config.WithinBytes) :
    s.Distinguishes cfg config where
  find_eq _ hmd := h.find_eq (StripeConfig.distinct_of_withinBytes hwithin) hmd
  stored_created := h.stored_created
  metadata_eq chunk md hchunk := by
    obtain ⟨-, hmd, hread⟩ := h.ids chunk md hchunk
    rw [getMetadata, hread, hmd.ofIdentifier_eq hwithin]

theorem Inv.step (h : s.Inv cfg config) (hdistinct : config.Distinct) {op : ChunkOp}
    (ha : s.Allowed cfg config op) : ∃ s', s.step cfg rand op = some s' ∧ s'.Inv cfg config := by
  cases op with
  | alloc chunk metadata => exact h.alloc ha
  | setIds chunk metadata => exact h.setIds ha
  | setChunk metadata chunk => exact h.setChunk hdistinct ha
  | store m =>
    refine ⟨_, rfl, ?_, ?_, h.apart, h.stored_created⟩
    · exact h.indexed_of_read fun md chunk hchunk => ha chunk (h.isSome_created hchunk)
    · intro chunk md hchunk
      obtain ⟨hne, hmd, hread⟩ := h.ids chunk md hchunk
      have hsame := ha chunk (Option.isSome_iff_exists.mpr ⟨md, hchunk⟩)
      exact ⟨hne, hmd, hsame.trans hread⟩
  | free chunk =>
    have hcreated : ∀ c, c ≠ chunk → Function.update s.created chunk none c = s.created c :=
      fun c hc => Function.update_of_ne hc _ _
    have hkept : ∀ c, (Function.update s.created chunk none c).isSome → c ≠ chunk := by
      rintro c hc rfl
      rw [Function.update_self] at hc
      cases hc
    refine ⟨_, rfl, h.indexed, ?_, ?_, ?_⟩
    · intro c md hc
      have hne := hkept c (Option.isSome_iff_exists.mpr ⟨md, hc⟩)
      exact h.ids c md ((hcreated c hne).symm.trans hc)
    · intro c d hc hd
      have hcne := hkept c hc
      have hdne := hkept d hd
      dsimp only at hc hd
      rw [hcreated c hcne] at hc
      rw [hcreated d hdne] at hd
      exact h.apart c d hc hd
    · intro md c hc
      exact (hcreated c fun heq => ha md (heq ▸ hc)).trans (h.stored_created md c hc)

/-! ## Runs -/

/-- The server does not confuse chunks, whatever it does with them. -/
def NeverConfuses (cfg : GlobalConfig) (config : StripeConfig) (shape : ChunkTableShape)
    (rand : ℕ → ℕ) : Prop :=
  ∀ (m : Memory) (ops : List ChunkOp),
    (∀ n op s, ops[n]? = some op → after cfg rand (start shape m) (ops.take n) = some s →
      s.Allowed cfg config op) →
    ∃ s, after cfg rand (start shape m) ops = some s ∧ s.Distinguishes cfg config

theorem neverConfuses_of_withinBytes (h : config.WithinBytes) :
    NeverConfuses cfg config shape rand := by
  intro m ops hallowed
  have hdistinct := StripeConfig.distinct_of_withinBytes h
  obtain ⟨s, hs, hinv⟩ := tryRun_invariant (Inv cfg config) (Allowed cfg config) (Inv.start m)
    (fun s op hs ha => hs.step hdistinct ha) ops hallowed
  exact ⟨s, hs, hinv.distinguishes h⟩

/-- A chunk whose ids do not come back is enough for the server to be wrong. -/
theorem not_neverConfuses_of_lost {metadata : Metadata} (hnames : config.Names metadata)
    (hlost : Metadata.ofIdentifier metadata.identifier ≠ metadata) :
    ¬NeverConfuses cfg config shape rand := by
  intro h
  have hallowed : ∀ n op s, [ChunkOp.alloc 1 metadata][n]? = some op →
      after cfg rand (start shape 0) ([ChunkOp.alloc 1 metadata].take n) = some s →
      s.Allowed cfg config op := by
    intro n op s hop hs
    cases n with
    | succ n => cases hop
    | zero =>
      obtain rfl := Option.some.inj hop
      obtain rfl := Option.some.inj hs
      exact ⟨one_ne_zero, hnames, fun c hc => by cases hc⟩
  obtain ⟨s, hs, hdist⟩ := h 0 [.alloc 1 metadata] hallowed
  obtain rfl := Option.some.inj hs
  have hcreated : Function.update (fun _ : ℕ => (none : Option Metadata)) 1 (some metadata) 1 =
      some metadata := Function.update_self _ _ _
  have hmetadata := hdist.metadata_eq 1 metadata hcreated
  have hread := Memory.holds_write ((0 : Memory).fill 1 cfg.slotSize 0) 1 metadata.identifier
  rw [Memory.Holds, Metadata.length_identifier] at hread
  apply hlost
  rw [← hread]
  exact hmetadata

/-- The identifiers tell the chunks of a configuration apart, and the server does, exactly if there
are at most 256 stripe lists and 256 chunks in a stripe. -/
theorem neverConfuses_iff (cfg : GlobalConfig) (config : StripeConfig) (shape : ChunkTableShape)
    (rand : ℕ → ℕ) : (config.Distinct ↔ config.WithinBytes) ∧
      (NeverConfuses cfg config shape rand ↔ config.WithinBytes) := by
  refine ⟨⟨fun h => ?_, StripeConfig.distinct_of_withinBytes⟩, fun h => ?_,
    neverConfuses_of_withinBytes⟩
  · by_contra hnot
    obtain ⟨a, b, ha, hb, hne, heq, -⟩ := StripeConfig.exists_lost hnot
    exact hne (h a b ha hb heq)
  · by_contra hnot
    obtain ⟨a, -, ha, -, -, -, hlost⟩ := StripeConfig.exists_lost hnot
    exact not_neverConfuses_of_lost ha hlost h

/-- A configuration with 257 stripe lists is accepted. -/
def manyLists : StripeConfig where
  listCount := 257
  params := ⟨.raid5, 3, 0, 0⟩
  one_le_listCount := by decide
  valid := by decide

/-- The lists 0 and 256 are one for the chunk table. -/
theorem not_distinct_of_manyLists : ¬∀ config : StripeConfig, config.Distinct := by
  intro h
  have hfirst : manyLists.Names ⟨0, 0, 0⟩ := ⟨by decide, by norm_num, by decide⟩
  have hlast : manyLists.Names ⟨256, 0, 0⟩ := ⟨by decide, by norm_num, by decide⟩
  exact absurd (h manyLists _ _ hfirst hlast rfl) (by decide)

end ChunkMapState

end MemEC.Server
